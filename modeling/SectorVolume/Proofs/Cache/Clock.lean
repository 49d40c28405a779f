import SectorVolume.Proofs.Cache.Filling
import Mathlib.Data.Nat.Find
import Mathlib.Data.Nat.ModEq

/-!
The round of the clock. From where it stands the hand goes on until a slot has no mark, and takes
the marks off the slots that it passes. Nothing bounds this loop but the loop itself: after a full
round the marks are gone, so the hand comes back to the first slot of the round and stops there. A
sweep, which makes one step more than there are slots at most, is the whole loop.
-/

namespace SectorVolume

/-- A slot when the hand has passed it. -/
def Slot.spared (slot : Slot) : Slot := slot.map fun line => { line with accessed := false }

namespace Cache

/-- The slot that the hand reaches with so many steps. -/
def ahead (c : Cache) (k : Nat) : Nat := (c.hand + k) % c.capacity

/-- The mark of a slot. -/
def marked (c : Cache) (i : Nat) : Bool := c.slots[i]?.any Slot.accessed

/-- The loop of the clock: with `k` steps of the hand it leads from one cache to the other. -/
inductive Stops : Cache → Nat → Cache → Prop
  | here {c : Cache} (h : c.advance.current.accessed = false) : Stops c 1 c.advance
  | on {c d : Cache} {k : Nat} (h : c.advance.current.accessed = true)
      (hrest : Stops c.advance.spare k d) : Stops c (k + 1) d

/-- The first slot ahead without a mark is `k` steps away; if all have one it is the first slot
that is reached for the second time. -/
structure Chosen (c : Cache) (k : Nat) : Prop where
  pos : 0 < k
  le : k ≤ c.capacity + 1
  marked : ∀ j, 0 < j → j < k → c.marked (c.ahead j) = true
  unmarked : k ≤ c.capacity → c.marked (c.ahead k) = false

/-- What the loop does to a cache in `k` steps. -/
structure Swept (c d : Cache) (k : Nat) : Prop where
  hand : d.hand = c.ahead k
  passed : ∀ j, 0 < j → j < k → d.slots[c.ahead j]? = c.slots[c.ahead j]?.map Slot.spared
  kept : ∀ i, (∀ j, 0 < j → j < k → i ≠ c.ahead j) → d.slots[i]? = c.slots[i]?

variable {c d : Cache} {k : Nat}

theorem ahead_lt (c : Cache) (k : Nat) : c.ahead k < c.capacity := Nat.mod_lt _ c.capacity_pos

theorem exists_chosen (c : Cache) : ∃ k, c.Chosen k := by
  by_cases hsome : ∃ j, 0 < j ∧ j ≤ c.capacity ∧ c.marked (c.ahead j) = false
  · obtain ⟨hpos, hle, hfound⟩ := Nat.find_spec hsome
    refine ⟨Nat.find hsome, hpos, by omega, fun j hj hlt => ?_, fun _ => hfound⟩
    have hbefore := Nat.find_min hsome hlt
    rw [← Bool.not_eq_false]
    exact fun hclear => hbefore ⟨hj, by omega, hclear⟩
  · refine ⟨c.capacity + 1, by omega, Nat.le_refl _, fun j hj hlt => ?_, by omega⟩
    rw [← Bool.not_eq_false]
    exact fun hclear => hsome ⟨j, hj, by omega, hclear⟩

theorem Chosen.unique {m : Nat} (h : c.Chosen k) (h' : c.Chosen m) : k = m := by
  have hle := h.le
  have hle' := h'.le
  rcases Nat.lt_trichotomy k m with hlt | heq | hgt
  · have hmark := h'.marked k h.pos hlt
    rw [h.unmarked (by omega)] at hmark
    cases hmark
  · exact heq
  · have hmark := h.marked m h'.pos hgt
    rw [h'.unmarked (by omega)] at hmark
    cases hmark

theorem marked_ahead_one (c : Cache) : c.marked (c.ahead 1) = c.advance.current.accessed := by
  have hlt : c.ahead 1 < c.slots.size := c.ahead_lt 1
  unfold marked
  rw [Array.getElem?_eq_getElem hlt]
  rfl

/-- In less than a round the hand does not come back to a slot. -/
theorem ahead_ne {i j : Nat} (hij : i < j) (hj : j < i + c.capacity) : c.ahead i ≠ c.ahead j := by
  intro heq
  have hmod : c.hand + i ≡ c.hand + j [MOD c.capacity] := heq
  have hdvd := (Nat.modEq_iff_dvd' (Nat.le_of_lt hij)).1 (Nat.ModEq.add_left_cancel' c.hand hmod)
  have hle := Nat.le_of_dvd (by omega) hdvd
  omega

theorem ahead_spare (c : Cache) (k : Nat) : c.advance.spare.ahead k = c.ahead (k + 1) := by
  unfold ahead
  rw [capacity_spare, capacity_advance]
  change ((c.hand + 1) % c.capacity + k) % c.capacity = _
  rw [Nat.mod_add_mod, Nat.add_assoc, Nat.add_comm 1 k]

theorem getElem?_spare (c : Cache) (i : Nat) : c.spare.slots[i]? =
    if i = c.hand then c.slots[i]?.map Slot.spared else c.slots[i]? := by
  have hhand := c.hand_lt
  by_cases hi : i = c.hand
  · rw [if_pos hi, hi, Array.getElem?_eq_getElem hhand]
    exact Array.getElem?_setIfInBounds_self_of_lt hhand
  · rw [if_neg hi]
    exact Array.getElem?_setIfInBounds_ne (Ne.symm hi)

theorem getElem?_spare_ahead (c : Cache) (i : Nat) : c.advance.spare.slots[i]? =
    if i = c.ahead 1 then c.slots[i]?.map Slot.spared else c.slots[i]? :=
      getElem?_spare c.advance i

/-- When the hand has gone on, the slot it looks for is one step closer. -/
theorem Chosen.pass (h : c.Chosen (k + 1)) (hk : 0 < k) : c.advance.spare.Chosen k := by
  have hle := h.le
  have hcap : c.advance.spare.capacity = c.capacity := by rw [capacity_spare, capacity_advance]
  refine ⟨hk, by omega, fun j hj hlt => ?_, fun _ => ?_⟩
  · have hmark := h.marked (j + 1) (by omega) (by omega)
    unfold Cache.marked at hmark ⊢
    rw [ahead_spare, getElem?_spare_ahead, if_neg (ahead_ne (by omega) (by omega)).symm]
    exact hmark
  · unfold Cache.marked
    rw [ahead_spare, getElem?_spare_ahead]
    by_cases hround : k = c.capacity
    · -- the round is over: the slot is the one whose mark went first
      have hsame : c.ahead (k + 1) = c.ahead 1 := by
        unfold ahead
        rw [hround, Nat.add_comm c.capacity 1, ← Nat.add_assoc, Nat.add_mod_right]
      rw [if_pos hsame]
      cases hslot : c.slots[c.ahead (k + 1)]? with
      | none => rfl
      | some slot => cases slot <;> rfl
    · rw [if_neg (ahead_ne (by omega) (by omega)).symm]
      exact h.unmarked (by omega)

/-- With enough steps allowed the sweep is the loop. -/
theorem Chosen.stops_sweepFor (h : c.Chosen k) {steps : Nat} (hsteps : k ≤ steps) :
    c.Stops k (sweepFor steps c) := by
  induction k generalizing c steps with
  | zero => exact absurd h.pos (Nat.lt_irrefl 0)
  | succ k ih =>
    obtain ⟨steps, rfl⟩ : ∃ m, steps = m + 1 := ⟨steps - 1, by omega⟩
    unfold sweepFor
    by_cases hk : k = 0
    · subst hk
      have hclear : c.advance.current.accessed = false := by
        rw [← marked_ahead_one]
        exact h.unmarked c.capacity_pos
      simp only [hclear]
      exact .here hclear
    · have hmark : c.advance.current.accessed = true := by
        rw [← marked_ahead_one]
        exact h.marked 1 (by omega) (by omega)
      simp only [hmark, if_true]
      exact .on hmark (ih (h.pass (by omega)) (by omega))

theorem Chosen.stops_sweep (h : c.Chosen k) : c.Stops k c.sweep := h.stops_sweepFor h.le

/-- The loop passes each slot once at most, so that every mark it takes away is one of before. -/
theorem Stops.swept (h : c.Stops k d) (hk : k ≤ c.capacity + 1) : c.Swept d k := by
  induction h with
  | here h => exact ⟨rfl, fun j hj hlt => by omega, fun _ _ => rfl⟩
  | @on c d k h hrest ih =>
    have hcap : c.advance.spare.capacity = c.capacity := by rw [capacity_spare, capacity_advance]
    obtain ⟨hhand, hpassed, hkept⟩ := ih (by omega)
    refine ⟨?_, fun j hj hlt => ?_, fun i hi => ?_⟩
    · rw [hhand, ahead_spare]
    · by_cases hfirst : j = 1
      · rw [hfirst, hkept (c.ahead 1), getElem?_spare_ahead, if_pos rfl]
        intro m hm hm'
        rw [ahead_spare]
        exact ahead_ne (by omega) (by omega)
      · obtain ⟨m, rfl⟩ : ∃ m, j = m + 1 := ⟨j - 1, by omega⟩
        have hslot := hpassed m (by omega) (by omega)
        rw [ahead_spare, getElem?_spare_ahead,
          if_neg (ahead_ne (by omega) (by omega)).symm] at hslot
        exact hslot
    · by_cases hk : k = 0
      · -- the loop does not end without a step
        subst hk
        cases hrest
      · rw [hkept, getElem?_spare_ahead, if_neg (hi 1 (by omega) (by omega))]
        intro m hm hm'
        rw [ahead_spare]
        exact hi (m + 1) (by omega) (by omega)

end Cache

end SectorVolume
