import SectorVolume.Proofs.Cache.Outline
import SectorVolume.Proofs.Script.Stray

/-!
What an access does to its own sector, in whatever state the cache is. Before the work on a line
the sector gets a slot, with its bytes if they are asked for, and from then on it is found there;
so the access works on the content that the sector had, and leaves what it makes of it. Without a
cache the same holds of the sector on the disk.
-/

namespace SectorVolume

namespace Cache

variable {c : Cache} {i : Nat}

theorem setSlot_setSlot (c : Cache) (i : Nat) (x y : Slot) :
    (c.setSlot i x).setSlot i y = c.setSlot i y := by
  simp [setSlot]

theorem setSlot_countHit (c : Cache) (i : Nat) (x : Slot) :
    c.countHit.setSlot i x = (c.setSlot i x).countHit := rfl

/-- A sector is found in the first slot that holds it. -/
theorem find?_of_first {line : Line} (hslot : c.slots[i]? = some (some line))
    (hfirst : ∀ j, j < i → ∀ x p, c.held? j ≠ some (line.sector, x, p)) :
    c.find? line.sector = some (i, line) := by
  obtain ⟨hi, hget⟩ := Array.getElem?_eq_some_iff.1 hslot
  have hindex : c.slots.findFinIdx? (fun slot => slot.holds line.sector) = some ⟨i, hi⟩ := by
    rw [Array.findFinIdx?_eq_some_iff]
    refine ⟨by simp [hget, Slot.holds], fun j hj hholds => ?_⟩
    obtain ⟨other, hother, hsector⟩ := (Option.any_eq_true _ _).1 hholds
    have hslot' : c.slots[j.val]? = some (some other) := by
      rw [← hother]
      exact Array.getElem?_eq_getElem j.isLt
    have hother' := held?_of_slot hslot'
    rw [Line.entry, beq_iff_eq.1 hsector] at hother'
    exact hfirst j hj _ _ hother'
  simp [find?, hindex, hget]

theorem first_of_find? {s : UInt32} {line : Line} (h : c.find? s = some (i, line)) {j : Nat}
    (hj : j < i) (x : Sector) (p : Bool) : c.held? j ≠ some (s, x, p) := by
  intro hheld
  obtain ⟨other, hslot, hentry⟩ := held?_eq_some_iff.1 hheld
  obtain ⟨hlt, hget⟩ := Array.getElem?_eq_some_iff.1 hslot
  simp only [find?, Option.bind_eq_bind, Option.bind_eq_some_iff] at h
  obtain ⟨k, hk, _, -, heq⟩ := h
  cases heq
  have hnot := (Array.findFinIdx?_eq_some_iff.1 hk).2 ⟨j, hlt⟩ hj
  apply hnot
  have hsector : other.sector = s := congrArg Prod.fst hentry
  simp [hget, Slot.holds, hsector]

end Cache

theorem Metered.sector_of_read {d d' : Metered RamDisk} {i : Nat} {x : Sector}
    (h : read i d = .ok x d') : d.device.sectors[i]? = some x := by
  cases hsector : d.device.sectors[i]? with
  | none => simp [read, BlockDevice.readSector, RamDisk.sector, hsector] at h
  | some y =>
    simp only [read, BlockDevice.readSector, RamDisk.sector, hsector,
      EStateM.Result.ok.injEq] at h
    rw [h.1]

namespace Cached

variable {α : Type} {c d : Cached RamDisk} {s : UInt32}

/-- What a slot held is written back to its own sector. -/
theorem sector_of_vacate {slot : Slot} (h : vacate slot c = .ok () d)
    (hne : ∀ line, slot = some line → line.sector ≠ s) :
    d.disk.device.sectors[s.toNat]? = c.disk.device.sectors[s.toNat]? := by
  cases slot with
  | none =>
    cases h
    rfl
  | some line =>
    obtain ⟨_, c₁, hcount, hrest⟩ := exists_of_bind_ok h
    cases hcount
    cases hdirty : line.dirty with
    | false =>
      simp only [hdirty] at hrest
      cases hrest
      rfl
    | true =>
      simp only [hdirty] at hrest
      obtain ⟨_, c₂, hwrite, hback⟩ := exists_of_bind_ok hrest
      obtain ⟨hdisk, -⟩ := onDisk_eq_ok hwrite
      obtain ⟨hdevice, -, -⟩ := Metered.of_write_ok hdisk
      obtain ⟨-, hset⟩ := RamDisk.setSector_eq_ok_iff.1 hdevice
      cases hback
      have hsectors : line.sector.toNat ≠ s.toNat :=
        fun he => hne line rfl (UInt32.toNat_inj.1 he)
      change c₂.disk.device.sectors[s.toNat]? = _
      rw [hset]
      exact Array.getElem?_setIfInBounds_ne hsectors

/-- A sector that is brought in has its bytes where they are asked for. -/
theorem data_of_bringIn {i : Nat} {line : Line} (hfind : c.cache.find? s = none)
    (h : bringIn s true c = .ok (i, line) d) : line.data = c.content s := by
  obtain ⟨_, _, hsweep, hbring⟩ := exists_of_bind_ok h
  cases hsweep
  obtain ⟨_, _, hget, hbring⟩ := exists_of_bind_ok hbring
  cases hget
  obtain ⟨_, ⟨cache₁, disk₁⟩, hvacate, hbring⟩ := exists_of_bind_ok hbring
  obtain ⟨_, _, hset, hbring⟩ := exists_of_bind_ok hbring
  cases hset
  have habsent := Cache.find?_eq_none_iff_entry.1 hfind
  have hdisk : disk₁.device.sectors[s.toNat]? = c.disk.device.sectors[s.toNat]? := by
    refine sector_of_vacate hvacate fun line hline hsector => ?_
    have hheld := c.cache.countMiss.sweep.held?_hand
    rw [hline, Cache.held?_sweep, Cache.held?_countMiss] at hheld
    exact habsent _ line.data line.dirty (by rw [hheld, Option.map_some, Line.entry, hsector])
  obtain ⟨data, ⟨cache₂, disk₂⟩, hread, hbring⟩ := exists_of_bind_ok hbring
  obtain ⟨hdisk₂, -⟩ := onDisk_eq_ok hread
  cases hbring
  rw [content_of_uncached habsent, ← hdisk]
  rw [show disk₁.device.sectors[s.toNat]? = some data from Metered.sector_of_read hdisk₂]
  rfl

/-- Everything is done for an access but its work on the line in slot `i`. -/
structure Ready (c d : Cached RamDisk) (s : UInt32) (needsData : Bool) (i : Nat) (line : Line) :
    Prop where
  lt : i < d.cache.slots.size
  sector : line.sector = s
  first : ∀ j, j < i → ∀ x p, d.cache.held? j ≠ some (s, x, p)
  data : needsData = true → line.data = c.content s
  perform : ∀ {α : Type} (a : Access α), a.needsData = needsData →
    perform s a c = touch i line a d

/-- What comes before the work on a line depends only on whether the sector's bytes are needed. -/
theorem ready_or_failed (c : Cached RamDisk) (s : UInt32) (needsData : Bool) :
    (∃ d i line, Ready c d s needsData i line) ∨
      ∃ f d, ∀ {α : Type} (a : Access α), a.needsData = needsData →
      perform s a c = .error f d := by
  cases hfind : c.cache.find? s with
  | some found =>
    obtain ⟨i, line⟩ := found
    obtain ⟨hslot, hsector⟩ := Cache.find?_eq_some hfind
    refine Or.inl ⟨⟨c.cache.countHit, c.disk⟩, i, line, ?_, hsector, ?_, ?_, ?_⟩
    · exact (Array.getElem?_eq_some_iff.1 hslot).1
    · exact fun j hj => Cache.first_of_find? hfind hj
    · intro _
      rw [content, hfind]
    · exact fun a _ => perform_of_find?_eq_some hfind
  | none =>
    cases hbring : bringIn s needsData c with
    | ok result d =>
      obtain ⟨i, line⟩ := result
      obtain ⟨hlt, hsector, -, hother, -⟩ := bringIn_ok hbring
      refine Or.inl ⟨d, i, line, hlt, hsector, fun j hj x p => ?_, ?_, fun a ha => ?_⟩
      · rw [hother j (Nat.ne_of_lt hj)]
        exact Cache.find?_eq_none_iff_entry.1 hfind j x p
      · rintro rfl
        exact data_of_bringIn hfind hbring
      · rw [perform_of_find?_eq_none hfind, ha, bind_of_ok hbring]
    | error f d =>
      refine Or.inr ⟨f, d, fun a ha => ?_⟩
      rw [perform_of_find?_eq_none hfind, ha, bind_of_error hbring]

namespace Ready

variable {needsData : Bool} {i : Nat} {line : Line} (h : Ready c d s needsData i line)
include h

/-- Where the sector is after the work. -/
theorem find?_setSlot (worked : Line) (hworked : worked.sector = s) :
    (d.cache.setSlot i (some worked)).find? s = some (i, worked) := by
  subst hworked
  refine Cache.find?_of_first (Array.getElem?_setIfInBounds_self_of_lt h.lt) fun j hj x p => ?_
  rw [Cache.held?_setSlot _ _ _ _ h.lt, if_neg (Nat.ne_of_lt hj)]
  exact h.first j hj x p

/-- An access that has its answer leaves the sector with the bytes that it made. -/
theorem perform_of_body_ok {a : Access α} (ha : a.needsData = needsData) {r : α} {t : Sector}
    (hbody : a.body line.data = .ok (r, t)) :
    Cached.perform s a c = .ok r
      ⟨d.cache.setSlot i (some ⟨line.sector, t, line.dirty || a.writes, true⟩), d.disk⟩ := by
  rw [h.perform a ha]
  simp only [touch, hbody]

theorem content_setSlot (worked : Line) (hworked : worked.sector = s) (disk : Metered RamDisk) :
    content ⟨d.cache.setSlot i (some worked), disk⟩ s = worked.data := by
  simp only [content, h.find?_setSlot worked hworked]

end Ready

/-- An access that succeeds works on the content of its sector, in whatever state the cache is. -/
theorem content_of_perform {a : Access α} (ha : a.Honest) {r : α} (h : perform s a c = .ok r d) :
    a.body (c.content s) = .ok (r, d.content s) := by
  obtain ⟨e, i, line, hready⟩ | ⟨f, e, hfail⟩ := ready_or_failed c s a.needsData
  · cases hbody : a.body line.data with
    | error f =>
      rw [hready.perform a rfl, touch] at h
      simp [hbody] at h
    | ok result =>
      obtain ⟨r', t⟩ := result
      rw [hready.perform_of_body_ok rfl hbody] at h
      cases h
      rw [hready.content_setSlot ⟨line.sector, t, line.dirty || a.writes, true⟩ hready.sector]
      cases hneeds : a.needsData with
      | true => rw [← hready.data hneeds, hbody]
      | false =>
        obtain ⟨r', t', hall⟩ := ha.blind hneeds
        rw [hall, ← hall line.data, hbody]
  · rw [hfail a rfl] at h
    cases h

end Cached

namespace Metered

section Work

variable {D α : Type} [BlockDevice D] (i : Nat) (a : Access α)

/-- What an access without a cache does with the bytes of its sector. -/
def work (s : Sector) : EStateM Fault (Metered D) α :=
  match a.body s with
  | .error f => throw f
  | .ok (r, t) => if a.writes then write i t >>= fun _ => pure r else pure r

theorem perform_eq : perform i a =
    ((if a.needsData then read i else pure Sector.zero) >>=
      work i a : EStateM Fault (Metered D) α) := by
  unfold perform
  cases a.needsData <;> rfl

end Work

variable {α : Type} {d d' : Metered RamDisk} {i : Nat}

/-- A sector of a disk without a cache. -/
def content (d : Metered RamDisk) (i : Nat) : Sector := d.device.sectors[i]?.getD Sector.zero

theorem read_eq_ok {x : Sector} (h : read i d = .ok x d') :
    x = d.content i ∧ d' = { d with reads := d.reads + 1 } := by
  have hsector := sector_of_read h
  refine ⟨by rw [content, hsector, Option.getD_some], ?_⟩
  simp only [read, BlockDevice.readSector, RamDisk.sector, hsector, EStateM.Result.ok.injEq] at h
  exact h.2.symm

theorem write_eq_ok {t : Sector} (h : write i t d = .ok () d') : i < d.device.sectors.size ∧
    d' = ⟨⟨d.device.sectors.setIfInBounds i t⟩, d.reads, d.writes + 1⟩ := by
  obtain ⟨hdevice, hreads, hwrites⟩ := of_write_ok h
  obtain ⟨hlt, hset⟩ := RamDisk.setSector_eq_ok_iff.1 hdevice
  obtain ⟨device, reads, writes⟩ := d'
  exact ⟨hlt, by rw [← hset, ← hreads, ← hwrites]⟩

theorem work_of_body_ok {a : Access α} {x t : Sector} {r : α} (hbody : a.body x = .ok (r, t)) :
    work i a x = (if a.writes then write i t >>= fun _ => pure r else pure r :
      EStateM Fault (Metered RamDisk) α) := by
  rw [work, hbody]

/-- An access that succeeds works on the content of its sector, and on that sector alone. -/
theorem content_of_perform {a : Access α} (ha : a.Honest) {r : α} (h : perform i a d = .ok r d') :
    a.body (d.content i) = .ok (r, d'.content i) ∧
      ∀ j, j ≠ i → d'.content j = d.content j := by
  rw [perform_eq] at h
  obtain ⟨x, d₁, hread, hwork⟩ := exists_of_bind_ok h
  obtain ⟨r', t, hbody, hdevice, hrest⟩ : ∃ r' t, a.body (d.content i) = .ok (r', t) ∧
      d₁.device = d.device ∧ (if a.writes then write i t >>= fun _ => pure r' else pure r' :
        EStateM Fault (Metered RamDisk) α) d₁ = .ok r d' := by
    cases hneeds : a.needsData with
    | true =>
      rw [hneeds, if_pos rfl] at hread
      obtain ⟨rfl, rfl⟩ := read_eq_ok hread
      cases hbody : a.body (d.content i) with
      | error f =>
        rw [work, hbody] at hwork
        cases hwork
      | ok result =>
        rw [work_of_body_ok hbody] at hwork
        exact ⟨result.1, result.2, rfl, rfl, hwork⟩
    | false =>
      rw [hneeds] at hread
      cases hread
      obtain ⟨r', t, hall⟩ := ha.blind hneeds
      rw [work_of_body_ok (hall _)] at hwork
      exact ⟨r', t, hall _, rfl, hwork⟩
  cases hwrites : a.writes with
  | true =>
    rw [hwrites, if_pos rfl] at hrest
    obtain ⟨_, d₂, hwrite, hpure⟩ := exists_of_bind_ok hrest
    cases hpure
    obtain ⟨hlt, rfl⟩ := write_eq_ok hwrite
    refine ⟨?_, fun j hj => ?_⟩
    · rw [hbody, content, Array.getElem?_setIfInBounds_self_of_lt hlt, Option.getD_some]
    · rw [content, Array.getElem?_setIfInBounds_ne hj.symm, hdevice, content]
  | false =>
    rw [hwrites] at hrest
    cases hrest
    have hquiet := ha.quiet hwrites _ _ _ hbody
    refine ⟨?_, fun j _ => by rw [content, hdevice, content]⟩
    rw [hbody, hquiet, content, content, hdevice]

/-- An access that writes to an existing sector. -/
theorem perform_of_writes {a : Access α} (ha : a.Honest) (hwrites : a.writes = true)
    (hi : i < d.device.sectors.size) {r : α} {t : Sector}
    (hbody : a.body d.device.sectors[i] = .ok (r, t)) :
    perform i a d = .ok r
      ⟨⟨d.device.sectors.setIfInBounds i t⟩, d.reads + a.needsData.toNat, d.writes + 1⟩ := by
  rw [perform_eq]
  cases hneeds : a.needsData with
  | true =>
    rw [if_pos rfl, bind_of_ok (read_of_lt hi), work_of_body_ok hbody, hwrites, if_pos rfl]
    exact bind_of_ok (write_of_lt (d := ⟨d.device, d.reads + 1, d.writes⟩) hi)
  | false =>
    obtain ⟨r', t', hall⟩ := ha.blind hneeds
    have hzero : a.body Sector.zero = .ok (r, t) := by
      rw [hall, ← hall d.device.sectors[i], hbody]
    rw [if_neg Bool.false_ne_true, pure_bind, work_of_body_ok hzero, hwrites, if_pos rfl,
      bind_of_ok (write_of_lt hi)]
    rfl

theorem perform_of_missing {a : Access α} (hneeds : a.needsData = true)
    (hi : d.device.sectors.size ≤ i) :
    perform i a d = .error .outOfBounds { d with reads := d.reads + 1 } := by
  have hread : read i d = .error .outOfBounds { d with reads := d.reads + 1 } := by
    simp [read, BlockDevice.readSector, RamDisk.sector, hi]
  rw [perform_eq, hneeds, if_pos rfl, bind_of_error hread]

end Metered

end SectorVolume
