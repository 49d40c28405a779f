import SectorVolume.Proofs.FreeMap.Tail

/-!
First fit. A request for a run of sectors is served by a search bit by bit that starts over behind
every sector in use, a request for a single one by a search for the first group that is not full.
Both find the least place where the run fits, so that a single sector is found as a run of one
would be. The bits behind the last sector matter to the search by groups only: it relies on their
being set.
-/

namespace SectorVolume

namespace Bitmap

/-- From `start` on, `count` sectors of the disk are free. -/
structure FreeRun (b : Bitmap) (count start : Nat) : Prop where
  add_le : start + count ≤ b.capacity
  free : ∀ i, start ≤ i → i < start + count → b.used? i = some false

/-- An answer that names the least free run, or that there is none. -/
def FirstFit (b : Bitmap) (count : Nat) : Option Nat → Prop
  | some start => b.FreeRun count start ∧ ∀ t, b.FreeRun count t → start ≤ t
  | none => ∀ start, ¬ b.FreeRun count start

theorem FirstFit.unique {b : Bitmap} {count : Nat} {r r' : Option Nat} (h : b.FirstFit count r)
    (h' : b.FirstFit count r') : r = r' := by
  cases r with
  | none =>
    cases r' with
    | none => rfl
    | some start' => exact absurd h'.1 (h start')
  | some start =>
    cases r' with
    | none => exact absurd h.1 (h' start)
    | some start' => rw [Nat.le_antisymm (h.2 start' h'.1) (h'.2 start h.1)]

theorem FirstFit.eq_none_iff {b : Bitmap} {count : Nat} {r : Option Nat}
    (h : b.FirstFit count r) :
    r = none ↔ ∀ start, ¬ b.FreeRun count start := by
  cases r with
  | none => exact ⟨fun _ => h, fun _ => rfl⟩
  | some start =>
    constructor
    · intro hnone
      cases hnone
    · intro hno
      exact absurd h.1 (hno start)

/-- What the search by bits knows with `rest` sectors to go: the sectors from `start` up to there
are free but too few, and no run begins before `start`. -/
structure Searching (b : Bitmap) (count rest start : Nat) : Prop where
  rest_le : rest ≤ b.capacity
  start_le : start ≤ b.capacity - rest
  lt_add : b.capacity - rest < start + count
  free : ∀ i, start ≤ i → i < b.capacity - rest → b.used? i = some false
  none_before : ∀ t, t < start → ¬ b.FreeRun count t

theorem searching_start (b : Bitmap) {count : Nat} (hcount : 0 < count) :
    b.Searching count b.capacity 0 where
  rest_le := Nat.le_refl _
  start_le := Nat.zero_le _
  lt_add := by omega
  free := by
    intro i _ hi
    omega
  none_before := by
    intro t ht
    omega

/-- Behind a sector in use the search starts over: a run that begins earlier would contain it. -/
theorem Searching.restart {b : Bitmap} {count rest start : Nat}
    (h : b.Searching count (rest + 1) start)
    (hused : b.used? (b.capacity - (rest + 1)) = some true) (hcount : 0 < count) :
    b.Searching count rest (b.capacity - (rest + 1) + 1) := by
  have hrest := h.rest_le
  have hlt := h.lt_add
  refine ⟨by omega, by omega, by omega, fun i hi hi' => by omega, fun t ht hrun => ?_⟩
  by_cases hbefore : t < start
  · exact h.none_before t hbefore hrun
  · have hfree := hrun.free (b.capacity - (rest + 1)) (by omega) (by omega)
    rw [hused] at hfree
    cases hfree

/-- A free sector makes the run longer by one. -/
theorem Searching.free_succ {b : Bitmap} {count rest start : Nat}
    (h : b.Searching count (rest + 1) start)
    (hused : b.used? (b.capacity - (rest + 1)) ≠ some true) {i : Nat} (hi : start ≤ i)
    (hi' : i < b.capacity - rest) : b.used? i = some false := by
  have hrest := h.rest_le
  by_cases hlast : i = b.capacity - (rest + 1)
  · obtain ⟨used, hget⟩ := Option.isSome_iff_exists.1
      (used?_isSome_of_lt (b := b) (i := b.capacity - (rest + 1)) (by omega))
    rw [hget] at hused
    rw [hlast, hget]
    cases used with
    | true => exact absurd rfl hused
    | false => rfl
  · exact h.free i hi (by omega)

/-- The search by bits from any point of it on: by induction on the sectors that are left. -/
theorem Searching.firstFit {b : Bitmap} {count rest start : Nat}
    (h : b.Searching count rest start)
    (hcount : 0 < count) : b.FirstFit count (findRunFrom b count rest start) := by
  induction rest generalizing start with
  | zero =>
    -- a run would have to begin behind the sectors that are too few already
    unfold findRunFrom
    intro t hrun
    have hlt := h.lt_add
    have hle := hrun.add_le
    by_cases hbefore : t < start
    · exact h.none_before t hbefore hrun
    · omega
  | succ rest ih =>
    have hrest := h.rest_le
    have hstart := h.start_le
    have hlt := h.lt_add
    unfold findRunFrom
    by_cases hused : b.used? (b.capacity - (rest + 1)) = some true
    · simp only [hused, if_true]
      exact ih (h.restart hused hcount)
    · simp only [hused, if_false]
      by_cases hlong : b.capacity - (rest + 1) + 1 - start = count
      · simp only [hlong, if_true]
        refine ⟨⟨by omega, fun i hi hi' => h.free_succ hused hi (by omega)⟩, fun t hrun => ?_⟩
        exact Nat.le_of_not_lt fun hbefore => h.none_before t hbefore hrun
      · simp only [hlong, if_false]
        exact ih ⟨by omega, by omega, by omega, fun i hi hi' => h.free_succ hused hi hi',
          h.none_before⟩

theorem firstFit_firstRun? (b : Bitmap) {count : Nat} (hcount : 0 < count) :
    b.FirstFit count (b.firstRun? count) := (searching_start b hcount).firstFit hcount

/-- With the tail of the last group set, the search by groups finds the least free sector. -/
theorem TailSet.firstFit_firstFree? {b : Bitmap} (hb : b.TailSet) :
    b.FirstFit 1 b.firstFree? := by
  rw [firstFree?_eq_head?]
  cases hclear : b.clear with
  | nil =>
    intro t hrun
    have hmem := mem_clear.2 (hrun.free t (Nat.le_refl _) (by omega))
    rw [hclear] at hmem
    cases hmem
  | cons first rest =>
    have hfree : b.used? first = some false := mem_clear.1 (by simp [hclear])
    have hlt : first < b.capacity := Nat.lt_of_not_le fun hle => hb first hle hfree
    refine ⟨⟨by omega, fun i hi hi' => ?_⟩, fun t hrun => ?_⟩
    · have hi : i = first := by omega
      rw [hi, hfree]
    · have hmem := mem_clear.2 (hrun.free t (Nat.le_refl _) (by omega))
      have hsorted : b.clear.Pairwise (· < ·) := List.pairwise_lt_range.filter _
      rw [hclear] at hmem hsorted
      rcases List.mem_cons.1 hmem with hhead | htail
      · omega
      · exact Nat.le_of_lt (List.rel_of_pairwise_cons hsorted htail)

/-- The request as the search by bits alone would serve it. -/
def allocByBits (b : Bitmap) (count : Nat) : Option UInt32 × Bitmap :=
  match b.firstRun? count with
  | some start => (some (UInt32.ofNat start), assignFrom true count start b)
  | none => (none, b)

theorem TailSet.alloc_eq_allocByBits {b : Bitmap} (hb : b.TailSet) (count : Nat) :
    b.alloc count = b.allocByBits count := by
  have hsearch : (if count = 1 then b.firstFree? else b.firstRun? count) = b.firstRun? count := by
    by_cases hone : count = 1
    · rw [if_pos hone, hone]
      exact hb.firstFit_firstFree?.unique (b.firstFit_firstRun? Nat.one_pos)
    · rw [if_neg hone]
  cases hrun : b.firstRun? count with
  | none =>
    rw [hrun] at hsearch
    simp only [alloc, allocByBits, hrun, hsearch]
  | some start =>
    rw [hrun] at hsearch
    simp only [alloc, allocByBits, hrun, hsearch]

theorem used?_assignFrom {b : Bitmap} {count start : Nat}
    (h : ∀ i, start ≤ i → i < start + count → (b.used? i).isSome) (used : Bool) (i : Nat) :
    (assignFrom used count start b).used? i =
      if start ≤ i ∧ i < start + count then some used else b.used? i := by
  induction count generalizing start b with
  | zero =>
    rw [if_neg (by omega)]
    rfl
  | succ count ih =>
    have hbit := h start (Nat.le_refl _) (by omega)
    unfold assignFrom
    rw [ih]
    · rw [used?_assign _ _ _ _ hbit]
      by_cases hi : i = start
      · rw [if_neg (by omega), if_pos hi, if_pos (by omega)]
      · rw [if_neg hi]
        by_cases hin : start + 1 ≤ i ∧ i < start + 1 + count
        · rw [if_pos hin, if_pos (by omega)]
        · rw [if_neg hin, if_neg (by omega)]
    · intro j hj hj'
      rw [used?_assign_of_ne b used (by omega)]
      exact h j (by omega) (by omega)

theorem TailSet.assignFrom_true {b : Bitmap} (hb : b.TailSet) {count start : Nat}
    (h : start + count ≤ b.capacity) : (assignFrom true count start b).TailSet := by
  intro i hi
  rw [capacity_assignFrom] at hi
  rw [used?_assignFrom (fun j hj hj' => used?_isSome_of_lt (by omega)), if_neg (by omega)]
  exact hb i hi

/-- The bits of a range behind its first one, when the first one has been written. -/
theorem used?_assign_behind {b : Bitmap} {count start : Nat} {r : Option Bool}
    (h : ∀ i, start ≤ i → i < start + (count + 1) → b.used? i = r) (used : Bool) :
    ∀ i, start + 1 ≤ i → i < start + 1 + count → (b.assign start used).used? i = r := by
  intro i hi hi'
  rw [used?_assign_of_ne b used (by omega)]
  exact h i (by omega) (by omega)

theorem freeCount_assignFrom_true {b : Bitmap} {count start : Nat}
    (h : ∀ i, start ≤ i → i < start + count → b.used? i = some false) :
    (assignFrom true count start b).freeCount + count = b.freeCount := by
  induction count generalizing start b with
  | zero => rfl
  | succ count ih =>
    have hone := freeCount_assign_true (h start (Nat.le_refl _) (by omega))
    have hrest := ih (used?_assign_behind h true)
    unfold assignFrom
    omega

theorem releaseFrom_of_used {b : Bitmap} {count start : Nat}
    (h : ∀ i, start ≤ i → i < start + count → b.used? i = some true) :
    releaseFrom count start b = .ok (assignFrom false count start b) := by
  induction count generalizing start b with
  | zero => rfl
  | succ count ih =>
    have hstart := h start (Nat.le_refl _) (by omega)
    have hrest := ih (used?_assign_behind h false)
    unfold releaseFrom assignFrom isUsed
    simp only [hstart]
    exact hrest

namespace FreeRun

variable {b : Bitmap} {count start : Nat}

theorem used?_taken (h : b.FreeRun count start) (i : Nat) :
    (assignFrom true count start b).used? i =
      if start ≤ i ∧ i < start + count then some true else b.used? i := by
  refine used?_assignFrom (fun j hj hj' => ?_) true i
  rw [h.free j hj hj']
  rfl

/-- Clearing the bits of a run that was taken gives the bitmap of before. -/
theorem assignFrom_taken (h : b.FreeRun count start) :
    assignFrom false count start (assignFrom true count start b) = b := by
  have hbits : ∀ i, start ≤ i → i < start + count →
      ((assignFrom true count start b).used? i).isSome := by
    intro i hi hi'
    rw [h.used?_taken, if_pos ⟨hi, hi'⟩]
    rfl
  apply eq_of_used?
  · rw [capacity_assignFrom, capacity_assignFrom]
  · intro i
    rw [used?_assignFrom hbits, h.used?_taken]
    by_cases hin : start ≤ i ∧ i < start + count
    · rw [if_pos hin, h.free i hin.1 hin.2]
    · rw [if_neg hin, if_neg hin]

theorem release_taken (h : b.FreeRun count start) (hcap : b.capacity ≤ UInt32.size)
    {sector : UInt32} (hsector : sector.toNat = start) :
    (assignFrom true count start b).release sector count = .ok b := by
  have hsum : checkedAdd sector.toNat count = .ok (sector.toNat + count) := by
    rw [checkedAdd_eq_ok_iff]
    have hle := h.add_le
    have hword : UInt32.size < wordLimit := by decide
    omega
  have hused : ∀ i, start ≤ i → i < start + count →
      (assignFrom true count start b).used? i = some true := by
    intro i hi hi'
    rw [h.used?_taken, if_pos ⟨hi, hi'⟩]
  unfold release
  rw [hsum, hsector]
  simp only [bind, Except.bind]
  rw [releaseFrom_of_used hused, h.assignFrom_taken]

end FreeRun

/-- A request for sectors is served first fit. If so many free sectors lie in a row, it is granted
the least place where they do: exactly their bits are set, so many fewer are free, and giving the
run back restores the bitmap. If there is no such place, and only then, it is refused and the
bitmap stays as it is. The search by groups for a single sector makes no difference to any of
this. -/
theorem alloc_is_first_fit {b : Bitmap} {count : Nat} (hcap : b.capacity ≤ UInt32.size)
    (htail : b.TailSet) (hcount : 0 < count) :
    b.alloc count = b.allocByBits count ∧
    ((∃ start, b.FreeRun count start) →
      ∃ sector b', b.alloc count = (some sector, b') ∧
        b.FreeRun count sector.toNat ∧ (∀ t, b.FreeRun count t → sector.toNat ≤ t) ∧
        b'.capacity = b.capacity ∧
        (∀ i, b'.used? i =
          if sector.toNat ≤ i ∧ i < sector.toNat + count then some true else b.used? i) ∧
        b'.freeCount + count = b.freeCount ∧
        b'.release sector count = .ok b) ∧
    ((b.alloc count).1 = none ↔ ∀ start, ¬ b.FreeRun count start) ∧
    ((b.alloc count).1 = none → b.alloc count = (none, b)) := by
  have hbits := htail.alloc_eq_allocByBits count
  have hfit := b.firstFit_firstRun? hcount
  refine ⟨hbits, ?_, ?_, fun hnone => ?_⟩
  · rintro ⟨t, ht⟩
    cases hfound : b.firstRun? count with
    | none => exact absurd ht (hfit.eq_none_iff.1 hfound t)
    | some start =>
      rw [hfound] at hfit
      have hrun : b.FreeRun count start := hfit.1
      have hle := hrun.add_le
      have hstart : (UInt32.ofNat start).toNat = start :=
        UInt32.toNat_ofNat_of_lt' (by omega)
      refine ⟨UInt32.ofNat start, assignFrom true count start b, ?_, ?_, ?_, ?_, ?_, ?_, ?_⟩
      · rw [hbits, allocByBits, hfound]
      · rw [hstart]
        exact hrun
      · rw [hstart]
        exact hfit.2
      · rw [capacity_assignFrom]
      · rw [hstart]
        exact hrun.used?_taken
      · exact freeCount_assignFrom_true hrun.free
      · exact hrun.release_taken hcap hstart
  · rw [hbits, allocByBits, ← hfit.eq_none_iff]
    cases b.firstRun? count with
    | none => simp
    | some start => simp
  · exact Prod.ext hnone (eq_of_alloc_eq_none (Prod.ext hnone rfl))

/-- A run of three over the end of the first group, the 63 sectors before it being in use. -/
theorem run_is_found_across_groups :
    ∃ b', (assignFrom true 63 0 (blank 70)).alloc 3 = (some 63, b') ∧ b'.freeCount = 4 ∧
      b'.release 63 3 = .ok (assignFrom true 63 0 (blank 70)) := by
  have htail : (assignFrom true 63 0 (blank 70)).TailSet :=
    (tailSet_blank 70).assignFrom_true (by decide)
  have hfree : ∀ i, (assignFrom true 63 0 (blank 70)).used? i = some false ↔ 63 ≤ i ∧ i < 70 := by
    intro i
    have hbits : ∀ j, 0 ≤ j → j < 0 + 63 → ((blank 70).used? j).isSome := fun j _ hj =>
      used?_isSome_of_lt (Nat.lt_trans hj (by decide))
    rw [used?_assignFrom hbits]
    by_cases hi : 0 ≤ i ∧ i < 0 + 63
    · rw [if_pos hi]
      simp
      omega
    · rw [if_neg hi, used?_blank_eq_some_false]
      omega
  have hrun : FreeRun (assignFrom true 63 0 (blank 70)) 3 63 := by
    refine ⟨by rw [capacity_assignFrom]; decide, fun i hi hi' => (hfree i).2 ?_⟩
    omega
  have hcount := freeCount_eq_of_clear hfree
  obtain ⟨-, hgranted, -, -⟩ :=
    alloc_is_first_fit (by rw [capacity_assignFrom]; decide) htail (by decide : 0 < 3)
  obtain ⟨sector, b', halloc, hplace, hleast, -, -, hfewer, hback⟩ := hgranted ⟨63, hrun⟩
  have hlow := (hfree sector.toNat).1 (hplace.free _ (Nat.le_refl _) (by omega))
  have hsector : sector = 63 := UInt32.toNat_inj.1 (Nat.le_antisymm (hleast 63 hrun) hlow.1)
  rw [hsector] at halloc hback
  exact ⟨b', halloc, by omega, hback⟩

end Bitmap

end SectorVolume
