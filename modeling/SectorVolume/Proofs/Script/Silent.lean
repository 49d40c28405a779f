import SectorVolume.Proofs.Script.Devices
import SectorVolume.Proofs.Script.Mute

/-!
Where nothing is changed nothing is written. A cache with no changed slot gives its slots up
without writing them back, and a script that only reads changes none, whether it comes to its end
or fails on the way. So it does not matter to such a script whether the device can be written at
all.
-/

namespace SectorVolume

section Preserving

variable {σ α β : Type} {P : σ → Prop}

/-- The computation keeps a property, whether it succeeds or fails. -/
def Preserves (P : σ → Prop) (m : EStateM Fault σ α) : Prop := ∀ s, P s → P (stateAfter m s)

theorem preserves_pure (a : α) : Preserves P (pure a) := fun _ h => h

theorem preserves_throw (f : Fault) : Preserves P (throw f : EStateM Fault σ α) := fun _ h => h

theorem Preserves.bind {m : EStateM Fault σ α} {k : α → EStateM Fault σ β} (hm : Preserves P m)
    (hk : ∀ a, Preserves P (k a)) : Preserves P (m >>= k) := by
  intro s hs
  have hm' := hm s hs
  cases hrun : m s with
  | ok a t =>
    rw [stateAfter_of_ok hrun] at hm'
    rw [stateAfter, bind_of_ok hrun]
    exact hk a t hm'
  | error f t =>
    rw [stateAfter_of_error hrun] at hm'
    rw [stateAfter_of_error (bind_of_error hrun)]
    exact hm'

end Preserving

namespace Cached

variable {D : Type} {device : D} {c : Cached D}

/-- Nothing is changed, and nothing has been written to the device. -/
structure Silent (device : D) (c : Cached D) : Prop where
  device : c.disk.device = device
  writes : c.disk.writes = 0
  clean : ∀ i s x p, c.cache.held? i = some (s, x, p) → p = false

theorem Silent.permits (h : c.Silent device) {allowed : Nat → Sector → Prop} :
    Permits allowed c.cache := fun i s x he => absurd (h.clean i s x true he) (by decide)

theorem Silent.of_held {d : Cached D} (h : c.Silent device) (hdisk : d.disk = c.disk)
    (hheld : ∀ i, d.cache.held? i = c.cache.held? i) : d.Silent device where
  device := by rw [hdisk, h.device]
  writes := by rw [hdisk, h.writes]
  clean i s x p he := h.clean i s x p (hheld i ▸ he)

/-- An unchanged line may be put into any slot. -/
theorem Silent.setSlot (h : c.Silent device) {i : Nat} (hi : i < c.cache.slots.size) {line : Line}
    (hline : line.dirty = false) : Silent device ⟨c.cache.setSlot i (some line), c.disk⟩ where
  device := h.device
  writes := h.writes
  clean j s x p he := by
    rw [Cache.held?_setSlot _ _ _ _ hi] at he
    split at he
    · rw [Option.map_some, Option.some.injEq] at he
      exact (congrArg (fun e => e.2.2) he).symm.trans hline
    · exact h.clean j s x p he

theorem silent_empty {capacity : Nat} (hcapacity : 0 < capacity) (device : D) :
    Silent device ⟨Cache.empty capacity hcapacity, Metered.ofDevice device⟩ :=
  ⟨rfl, rfl, fun i s x p he => absurd he (by simp)⟩

variable [BlockDevice D]

theorem vacate_of_clean {slot : Slot} (h : ∀ line, slot = some line → line.dirty = false) :
    ∃ d, vacate slot c = .ok () d ∧ d.disk = c.disk ∧ d.cache.slots = c.cache.slots ∧
      d.cache.hand = c.cache.hand := by
  cases slot with
  | none => exact ⟨c, rfl, rfl, rfl, rfl⟩
  | some line =>
    refine ⟨⟨c.cache.countEviction, c.disk⟩, ?_, rfl, rfl, rfl⟩
    have hcount : modifyCache Cache.countEviction c = .ok () ⟨c.cache.countEviction, c.disk⟩ :=
      rfl
    rw [vacate, bind_of_ok hcount]
    simp only [h line rfl]
    rfl

/-- A sector is brought in, or cannot be read. -/
theorem bringIn_of_silent (h : c.Silent device) (s : UInt32) :
    (∃ i line d, bringIn s true c = .ok (i, line) d ∧ d.Silent device ∧
      i < d.cache.slots.size ∧ line.dirty = false) ∨
    ∃ f d, bringIn s true c = .error f d ∧ d.Silent device := by
  let c₁ : Cached D := ⟨c.cache.countMiss.sweep, c.disk⟩
  have hclean : ∀ line, c₁.cache.current = some line → line.dirty = false := by
    intro line hline
    refine h.clean c₁.cache.hand line.sector line.data line.dirty ?_
    rw [← Cache.held?_countMiss, ← Cache.held?_sweep, Cache.held?_hand, hline]
    rfl
  obtain ⟨c₂, hvacate, hdisk, hslots, hhand⟩ := vacate_of_clean (c := c₁) hclean
  let stale : Line := ⟨s, (c₁.cache.current.map Line.data).getD Sector.zero, false, false⟩
  have h₂ : c₂.Silent device := by
    refine h.of_held hdisk fun i => ?_
    rw [Cache.held?, hslots]
    exact (Cache.held?_sweep _ i).trans (Cache.held?_countMiss _ i)
  have h₃ : Silent device ⟨c₂.cache.setCurrent (some stale), c₂.disk⟩ :=
    h₂.setSlot c₂.cache.hand_lt rfl
  have hrun : bringIn s true c = (do
      let data ← onDisk (Metered.read s.toNat)
      return (c₁.cache.hand, { stale with data }) : EStateM Fault (Cached D) (Nat × Line))
        ⟨c₂.cache.setCurrent (some stale), c₂.disk⟩ := by
    rw [bringIn]
    change (vacate c₁.cache.current >>= fun _ => _) c₁ = _
    rw [bind_of_ok hvacate]
    rfl
  have hsize : c₁.cache.hand < (c₂.cache.setCurrent (some stale)).slots.size := by
    rw [Cache.setCurrent, Cache.setSlot, Array.size_setIfInBounds, ← hhand]
    exact c₂.cache.hand_lt
  cases hread : BlockDevice.readSector c₂.disk.device s.toNat with
  | ok data =>
    have hdisk' : onDisk (Metered.read s.toNat) ⟨c₂.cache.setCurrent (some stale), c₂.disk⟩ =
        .ok data
          ⟨c₂.cache.setCurrent (some stale), { c₂.disk with reads := c₂.disk.reads + 1 }⟩ := by
      simp only [onDisk, Metered.read, hread]
    refine Or.inl ⟨_, _, _, hrun.trans (bind_of_ok hdisk'), ⟨h₃.device, h₃.writes, h₃.clean⟩,
      hsize, rfl⟩
  | error f =>
    have hdisk' : onDisk (Metered.read s.toNat) ⟨c₂.cache.setCurrent (some stale), c₂.disk⟩ =
        .error f
          ⟨c₂.cache.setCurrent (some stale), { c₂.disk with reads := c₂.disk.reads + 1 }⟩ := by
      simp only [onDisk, Metered.read, hread]
    exact Or.inr ⟨f, _, hrun.trans (bind_of_error hdisk'), h₃.device, h₃.writes, h₃.clean⟩

/-- To read a sector nothing is written. -/
theorem preserves_fetch (device : D) (s : UInt32) :
    Preserves (Silent device) (perform s Access.fetch) := by
  intro c h
  cases hfind : c.cache.find? s with
  | some found =>
    obtain ⟨i, line⟩ := found
    obtain ⟨hslot, -⟩ := Cache.find?_eq_some hfind
    have hline : line.dirty = false := h.clean i _ _ _ (Cache.held?_of_slot hslot)
    have hhit : Silent device ⟨c.cache.countHit, c.disk⟩ := h.of_held rfl fun _ => rfl
    rw [stateAfter, perform_of_find?_eq_some hfind]
    refine hhit.setSlot (Array.getElem?_eq_some_iff.1 hslot).1 ?_
    simp [hline, Access.fetch]
  | none =>
    rw [stateAfter, perform_of_find?_eq_none hfind]
    obtain ⟨i, line, d, hbring, hd, hi, hline⟩ | ⟨f, d, hbring, hd⟩ := bringIn_of_silent h s
    · rw [show Access.fetch.needsData = true from rfl, bind_of_ok hbring]
      refine hd.setSlot hi ?_
      simp [hline, Access.fetch]
    · rw [show Access.fetch.needsData = true from rfl, bind_of_error hbring]
      exact hd

/-- A flush has nothing to do. -/
theorem flush_of_silent (h : c.Silent device) : flush c = .ok () c := by
  have hslot : ∀ i, flushSlot i c = .ok () c := by
    intro i
    have hget : (get : EStateM Fault (Cached D) (Cached D)) c = .ok c c := rfl
    rcases hslot : c.cache.slots[i]? with _ | _ | line
    · rw [flushSlot, bind_of_ok hget, hslot]
      rfl
    · rw [flushSlot, bind_of_ok hget, hslot]
      rfl
    · have hline : line.dirty = false := h.clean i _ _ _ (Cache.held?_of_slot hslot)
      rw [flushSlot, bind_of_ok hget, hslot]
      simp only [hline]
      rfl
  have hall : ∀ is : List Nat, is.forM flushSlot c = .ok () c := by
    intro is
    induction is with
    | nil => rfl
    | cons i is ih => exact (bind_of_ok (hslot i)).trans ih
  exact hall _

end Cached

namespace Engine

variable {D E α : Type} [BlockDevice D] [BlockDevice E]

/-- A script that only reads. -/
theorem preserves_run (device : D) {p : Script α} (hp : p.Mute) :
    Preserves (fun e : Engine D => e.store.Silent device) (run p) := by
  induction hp with
  | done a => exact preserves_pure a
  | fail f => exact preserves_throw f
  | @fetch s next _ ih =>
    refine Preserves.bind (fun e he => ?_) ih
    have hstore := Cached.preserves_fetch device s e.store he
    rw [stateAfter] at hstore ⊢
    cases hrun : Cached.perform s Access.fetch e.store <;> rw [hrun] at hstore <;>
      simpa only [onStore, hrun] using hstore
  | @release s next _ ih =>
    refine Preserves.bind (fun e he => ?_) fun _ => ih
    rw [stateAfter]
    cases hrun : e.map.release s 1 <;> simpa only [release, hrun] using he

/-- A script that only reads does not see whether the device can be written. -/
theorem matches_run_of_mute {R : D → E → Prop} (hm : Mirrors R fun _ _ => False) {e : Engine D}
    {f : Engine E} {device : E} (h : Alike R e f) (hf : f.store.Silent device) {p : Script α}
    (hp : p.Mute) : Matches (Alike R) (run p) (run p) e f := by
  induction hp generalizing e f with
  | done a => exact Matches.pure h a
  | fail g => rintro a f' ⟨⟩
  | @fetch s next _ ih =>
    have hperform := matches_onStore h
      (Cached.matches_perform hm h.store (s := s) (fun _ => hf.permits) Access.fetch)
    refine hperform.bind fun d e' f' hrun h' => ih d h' ?_
    have hkept := preserves_run device (mute_fetchSector s) f hf
    rwa [stateAfter_of_ok (show run (fetchSector s) f = .ok d f' from bind_of_ok hrun)] at hkept
  | @release s next _ ih =>
    refine (matches_release h s 1).bind fun _ e' f' hrun h' => ih h' ?_
    have hkept := preserves_run device (mute_releaseSector s) f hf
    rwa [stateAfter_of_ok
      (show run (releaseSector s) f = .ok () f' from bind_of_ok hrun)] at hkept

end Engine

end SectorVolume
