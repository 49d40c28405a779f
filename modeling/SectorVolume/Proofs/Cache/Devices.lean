import SectorVolume.Proofs.Cache.Perform

/-!
One run on two devices. Where a device does what another one does, a cache in front of it does
what the same cache does in front of the other: it answers alike and its slots are the same. The
devices need only agree on what is really written, which is what the changed slots hold.
-/

namespace SectorVolume

section Results

variable {σ τ α β : Type} {Q R : σ → τ → Prop} {s : σ} {t : τ}

/-- Where the second computation succeeds, the first one gives the same answer, and what they
leave corresponds. -/
def Matches (R : σ → τ → Prop) (m : EStateM Fault σ α) (n : EStateM Fault τ α) (s : σ) (t : τ) :
    Prop :=
  ∀ a t', n t = .ok a t' → ∃ s', m s = .ok a s' ∧ R s' t'

theorem Matches.pure (h : R s t) (a : α) : Matches R (pure a) (pure a) s t := by
  rintro b t' ⟨⟩
  exact ⟨s, rfl, h⟩

theorem Matches.get_bind {k : σ → EStateM Fault σ α} {l : τ → EStateM Fault τ α}
    (h : Matches R (k s) (l t) s t) : Matches R (get >>= k) (get >>= l) s t := h

theorem Matches.bind {m : EStateM Fault σ α} {n : EStateM Fault τ α} {k : α → EStateM Fault σ β}
    {l : α → EStateM Fault τ β} (h : Matches Q m n s t)
    (hk : ∀ a s' t', n t = .ok a t' → Q s' t' → Matches R (k a) (l a) s' t') :
    Matches R (m >>= k) (n >>= l) s t := by
  intro b u hrun
  obtain ⟨a, t', hn, hl⟩ := exists_of_bind_ok hrun
  obtain ⟨s', hm, hQ⟩ := h a t' hn
  obtain ⟨u', hk', hR⟩ := hk a s' t' hn hQ b u hl
  exact ⟨u', by rw [bind_of_ok hm, hk'], hR⟩

/-- A correspondence that every round of a loop keeps is kept by the loop. -/
theorem Matches.forM {f : α → EStateM Fault σ Unit} {g : α → EStateM Fault τ Unit}
    (hbody : ∀ a s t, R s t → Matches R (f a) (g a) s t) (as : List α) (h : R s t) :
    Matches R (as.forM f) (as.forM g) s t := by
  induction as generalizing s t with
  | nil => exact Matches.pure h ()
  | cons a as ih => exact (hbody a s t h).bind fun _ s' t' _ h' => ih h'

end Results

variable {D E α : Type}

/-- The first device does what the second one does, as long as only what is allowed is written. -/
structure Mirrors [BlockDevice D] [BlockDevice E] (R : D → E → Prop)
    (allowed : Nat → Sector → Prop) : Prop where
  read : ∀ {d e i s}, R d e → BlockDevice.readSector e i = .ok s →
    BlockDevice.readSector d i = .ok s
  write : ∀ {d e i s}, R d e → allowed i s →
    Matches R (BlockDevice.writeSector i s) (BlockDevice.writeSector i s) d e

namespace Metered

structure Alike (R : D → E → Prop) (c : Metered D) (d : Metered E) : Prop where
  device : R c.device d.device
  reads : c.reads = d.reads
  writes : c.writes = d.writes

variable [BlockDevice D] [BlockDevice E] {R : D → E → Prop} {allowed : Nat → Sector → Prop}
  {c : Metered D} {d : Metered E}

theorem matches_read (hm : Mirrors R allowed) (h : Alike R c d) (i : Nat) :
    Matches (Alike R) (read i) (read i) c d := by
  intro s d' hread
  cases hdevice : BlockDevice.readSector d.device i with
  | error f => simp [read, hdevice] at hread
  | ok x =>
    simp only [read, hdevice, EStateM.Result.ok.injEq] at hread
    obtain ⟨rfl, rfl⟩ := hread
    refine ⟨{ c with reads := c.reads + 1 }, ?_, h.device, congrArg (· + 1) h.reads, h.writes⟩
    simp only [read, hm.read h.device hdevice]

theorem matches_write (hm : Mirrors R allowed) (h : Alike R c d) {i : Nat} {s : Sector}
    (ha : allowed i s) : Matches (Alike R) (write i s) (write i s) c d := by
  intro u d' hwrite
  cases hdevice : BlockDevice.writeSector i s d.device with
  | error f e => simp [write, hdevice] at hwrite
  | ok _ e =>
    simp only [write, hdevice, EStateM.Result.ok.injEq] at hwrite
    obtain ⟨-, rfl⟩ := hwrite
    obtain ⟨e', hwrite', he⟩ := hm.write h.device ha () e hdevice
    refine ⟨⟨e', c.reads, c.writes + 1⟩, ?_, he, h.reads, congrArg (· + 1) h.writes⟩
    simp only [write, hwrite']

end Metered

namespace Cached

structure Alike (R : D → E → Prop) (c : Cached D) (d : Cached E) : Prop where
  cache : c.cache = d.cache
  disk : Metered.Alike R c.disk d.disk

/-- Whatever has still to be written back may be written. -/
def Permits (allowed : Nat → Sector → Prop) (c : Cache) : Prop :=
  ∀ i s x, c.held? i = some (s, x, true) → allowed s.toNat x

variable {R : D → E → Prop} {allowed : Nat → Sector → Prop} {c : Cached D} {d : Cached E}

theorem matches_onDisk {m : EStateM Fault (Metered D) α} {n : EStateM Fault (Metered E) α}
    (h : Alike R c d) (hm : Matches (Metered.Alike R) m n c.disk d.disk) :
    Matches (Alike R) (onDisk m) (onDisk n) c d := by
  intro a d' hrun
  cases hn : n d.disk with
  | error f e => simp [onDisk, hn] at hrun
  | ok b e =>
    simp only [onDisk, hn, EStateM.Result.ok.injEq] at hrun
    obtain ⟨rfl, rfl⟩ := hrun
    obtain ⟨e', hm', he⟩ := hm b e hn
    refine ⟨⟨c.cache, e'⟩, ?_, h.cache, he⟩
    simp only [onDisk, hm']

theorem matches_modifyCache (h : Alike R c d) (f : Cache → Cache) :
    Matches (Alike R) (modifyCache f) (modifyCache f) c d := by
  rintro u d' ⟨⟩
  exact ⟨⟨f c.cache, c.disk⟩, rfl, congrArg f h.cache, h.disk⟩

theorem matches_touch (h : Alike R c d) (i : Nat) (line : Line) (a : Access α) :
    Matches (Alike R) (touch i line a) (touch i line a) c d := by
  intro r d' hrun
  cases hbody : a.body line.data with
  | error f => simp [touch, hbody] at hrun
  | ok result =>
    simp only [touch, hbody, EStateM.Result.ok.injEq] at hrun
    obtain ⟨rfl, rfl⟩ := hrun
    refine ⟨⟨d.cache.setSlot i _, c.disk⟩, ?_, rfl, h.disk⟩
    simp only [touch, hbody, h.cache]

theorem cache_of_modifyCache_ok {f : Cache → Cache} {u : Unit} {c' : Cached D}
    (h : modifyCache f c = .ok u c') : c'.cache = f c.cache := by
  simp only [modifyCache, EStateM.Result.ok.injEq] at h
  rw [← h.2]

theorem onDisk_eq_ok {m : EStateM Fault (Metered D) α} {a : α} {c' : Cached D}
    (h : onDisk m c = .ok a c') : m c.disk = .ok a c'.disk ∧ c'.cache = c.cache := by
  cases hm : m c.disk with
  | ok b disk =>
    simp only [onDisk, hm, EStateM.Result.ok.injEq] at h
    obtain ⟨rfl, rfl⟩ := h
    exact ⟨rfl, rfl⟩
  | error f disk => simp [onDisk, hm] at h

theorem cache_of_onDisk_ok {m : EStateM Fault (Metered D) α} {a : α} {c' : Cached D}
    (h : onDisk m c = .ok a c') : c'.cache = c.cache := (onDisk_eq_ok h).2

theorem touch_ok {i : Nat} {line : Line} {a : Access α} {r : α} {c' : Cached D}
    (h : touch i line a c = .ok r c') :
    ∃ t, c' =
      ⟨c.cache.setSlot i (some ⟨line.sector, t, line.dirty || a.writes, true⟩), c.disk⟩ := by
  cases hbody : a.body line.data with
  | error f => simp [touch, hbody] at h
  | ok result =>
    simp only [touch, hbody, EStateM.Result.ok.injEq] at h
    exact ⟨result.2, h.2.symm⟩

variable [BlockDevice D] [BlockDevice E]

theorem matches_vacate (hm : Mirrors R allowed) (h : Alike R c d) {slot : Slot}
    (ha : ∀ line, slot = some line → line.dirty = true → allowed line.sector.toNat line.data) :
    Matches (Alike R) (vacate slot) (vacate slot) c d := by
  cases slot with
  | none => exact Matches.pure h ()
  | some line =>
    refine (matches_modifyCache h Cache.countEviction).bind fun _ c₁ d₁ _ h₁ => ?_
    cases hdirty : line.dirty with
    | false => exact Matches.pure h₁ ()
    | true =>
      refine (matches_onDisk h₁ (Metered.matches_write hm h₁.disk (ha line rfl hdirty))).bind ?_
      exact fun _ c₂ d₂ _ h₂ => matches_modifyCache h₂ Cache.countWriteBack

theorem matches_bringIn (hm : Mirrors R allowed) (h : Alike R c d) (ha : Permits allowed d.cache)
    (s : UInt32) (needsData : Bool) :
    Matches (Alike R) (bringIn s needsData) (bringIn s needsData) c d := by
  refine (matches_modifyCache h _).bind fun _ c₁ d₁ hd₁ h₁ => Matches.get_bind ?_
  rw [h₁.cache, cache_of_modifyCache_ok hd₁]
  refine (matches_vacate hm h₁ ?_).bind fun _ c₂ d₂ _ h₂ => ?_
  · intro line hline hdirty
    apply ha d.cache.countMiss.sweep.hand
    rw [← Cache.held?_countMiss, ← Cache.held?_sweep, Cache.held?_hand, hline, Option.map_some,
      Line.entry, hdirty]
  · refine (matches_modifyCache h₂ _).bind fun _ c₃ d₃ _ h₃ => ?_
    cases needsData with
    | false => exact Matches.pure h₃ _
    | true =>
      refine (matches_onDisk h₃ (Metered.matches_read hm h₃.disk _)).bind ?_
      exact fun _ c₄ d₄ _ h₄ => Matches.pure h₄ _

/-- An access is done alike. Nothing is written unless the sector has to be brought in. -/
theorem matches_perform (hm : Mirrors R allowed) (h : Alike R c d) {s : UInt32}
    (ha : d.cache.find? s = none → Permits allowed d.cache) (a : Access α) :
    Matches (Alike R) (perform s a) (perform s a) c d := by
  intro r d' hrun
  cases hfind : d.cache.find? s with
  | some found =>
    obtain ⟨i, line⟩ := found
    rw [perform_of_find?_eq_some hfind] at hrun
    rw [perform_of_find?_eq_some (h.cache ▸ hfind)]
    have hhit : Alike R ⟨c.cache.countHit, c.disk⟩ ⟨d.cache.countHit, d.disk⟩ :=
      ⟨congrArg Cache.countHit h.cache, h.disk⟩
    exact matches_touch hhit i line a r d' hrun
  | none =>
    rw [perform_of_find?_eq_none hfind] at hrun
    rw [perform_of_find?_eq_none (h.cache ▸ hfind)]
    refine (matches_bringIn hm h (ha hfind) s a.needsData).bind ?_ r d' hrun
    exact fun (i, line) c₁ d₁ _ h₁ => matches_touch h₁ i line a

/-- A slot that has been written back needs no more leave. -/
theorem Permits.cleaned {cache : Cache} (h : Permits allowed cache) {i : Nat} {line : Line}
    (hi : i < cache.slots.size) (hclean : line.dirty = false) :
    Permits allowed (cache.setSlot i (some line)).countWriteBack := by
  intro j s x he
  rw [Cache.held?_countWriteBack, Cache.held?_setSlot _ _ _ _ hi] at he
  by_cases hj : j = i
  · rw [if_pos hj, Option.map_some, Line.entry, hclean] at he
    exact absurd he (by simp)
  · rw [if_neg hj] at he
    exact h j s x he

theorem matches_flushSlot (hm : Mirrors R allowed) (h : Alike R c d)
    (ha : Permits allowed d.cache)
    (i : Nat) : Matches (fun c d => Alike R c d ∧ Permits allowed d.cache) (flushSlot i)
      (flushSlot i) c d := by
  refine Matches.get_bind ?_
  rw [h.cache]
  rcases hslot : d.cache.slots[i]? with _ | _ | line
  · exact Matches.pure ⟨h, ha⟩ ()
  · exact Matches.pure ⟨h, ha⟩ ()
  · cases hdirty : line.dirty with
    | false =>
      simp only [hdirty]
      exact Matches.pure ⟨h, ha⟩ ()
    | true =>
      simp only [hdirty]
      have hallowed : allowed line.sector.toNat line.data := by
        apply ha i
        rw [Cache.held?_of_slot hslot, Line.entry, hdirty]
      refine (matches_onDisk h (Metered.matches_write hm h.disk hallowed)).bind ?_
      intro _ c₁ d₁ hd₁ h₁ u d₂ hd₂
      obtain ⟨c₂, hc₂, h₂⟩ := matches_modifyCache h₁ _ u d₂ hd₂
      refine ⟨c₂, hc₂, h₂, ?_⟩
      rw [cache_of_modifyCache_ok hd₂, cache_of_onDisk_ok hd₁]
      exact ha.cleaned (Array.getElem?_eq_some_iff.1 hslot).1 rfl

theorem matches_flush (hm : Mirrors R allowed) (h : Alike R c d) (ha : Permits allowed d.cache) :
    Matches (Alike R) flush flush c d := by
  refine Matches.get_bind ?_
  rw [h.cache]
  intro u d' hrun
  obtain ⟨c', hrun', h', -⟩ := Matches.forM (fun i c d h => matches_flushSlot hm h.1 h.2 i)
    (List.range d.cache.capacity) ⟨h, ha⟩ u d' hrun
  exact ⟨c', hrun', h'⟩

end Cached

end SectorVolume
