import SectorVolume.Fault

/-!
Which sectors are in use, one bit each, kept in groups of 64. The bits of the last group that
stand for no sector are set from the start, so that a search by groups never hands them out. A
single sector is looked for group by group, a run of sectors bit by bit; both take the first place
that fits.
-/

namespace SectorVolume

abbrev groupBits : Nat := 64

abbrev BitGroup := BitVec groupBits

namespace BitGroup

/-- Every bit set. -/
def full : BitGroup := BitVec.allOnes groupBits

def assign (g : BitGroup) (k : Nat) (used : Bool) : BitGroup :=
  if used then g ||| BitVec.twoPow groupBits k else g &&& ~~~(BitVec.twoPow groupBits k)

theorem getLsbD_assign (g : BitGroup) (k j : Nat) (used : Bool) (hj : j < groupBits) :
    (assign g k used).getLsbD j = if j = k then used else g.getLsbD j := by
  unfold assign
  by_cases h : j = k
  · subst h
    cases used <;> simp [hj]
  · cases used <;> simp [hj, h]

theorem getLsbD_full {k : Nat} (h : k < groupBits) : full.getLsbD k = true := by
  simp [full, h]

theorem exists_clear {g : BitGroup} (h : g ≠ full) :
    ∃ k, k < groupBits ∧ g.getLsbD k = false := by
  refine Classical.byContradiction fun hno => h ?_
  apply BitVec.eq_of_getLsbD_eq
  intro k hk
  rw [getLsbD_full hk]
  cases hbit : g.getLsbD k with
  | true => rfl
  | false => exact absurd ⟨k, hk, hbit⟩ hno

/-- The lowest bit that is clear, or 64. -/
def lowestClear (g : BitGroup) : Nat :=
  ((List.range groupBits).find? fun k => !g.getLsbD k).getD groupBits

theorem lowestClear_lt {g : BitGroup} (h : g ≠ full) : g.lowestClear < groupBits := by
  obtain ⟨k, hk, hclear⟩ := exists_clear h
  unfold lowestClear
  cases hfind : (List.range groupBits).find? fun k => !g.getLsbD k with
  | none =>
    have hset := List.find?_eq_none.1 hfind k (List.mem_range.2 hk)
    simp [hclear] at hset
  | some m => exact List.mem_range.1 (List.mem_of_find?_eq_some hfind)

theorem lowestClear_eq_iff {g : BitGroup} {k : Nat} (hk : k < groupBits) :
    g.lowestClear = k ↔ g.getLsbD k = false ∧ ∀ j, j < k → g.getLsbD j = true := by
  unfold lowestClear
  cases hfind : (List.range groupBits).find? fun k => !g.getLsbD k with
  | none =>
    have hset := List.find?_eq_none.1 hfind k (List.mem_range.2 hk)
    simp only [Bool.not_eq_true', Bool.not_eq_false] at hset
    simp [hset, Nat.ne_of_gt hk]
  | some m =>
    rw [List.find?_range_eq_some] at hfind
    simp only [Option.getD_some]
    constructor
    · rintro rfl
      exact ⟨by simpa using hfind.1, by simpa using hfind.2.2⟩
    · rintro ⟨hclear, hlow⟩
      rcases Nat.lt_trichotomy m k with h | h | h
      · simp [hlow m h] at hfind
      · exact h
      · have hset := hfind.2.2 k h
        simp [hclear] at hset

end BitGroup

@[ext]
structure Bitmap where
  /-- The number of sectors. -/
  capacity : Nat
  groups : Array BitGroup
  size_groups : groups.size = (capacity + (groupBits - 1)) / groupBits

namespace Bitmap

/-- All sectors free. The bits past the capacity are set. -/
def blank (capacity : Nat) : Bitmap where
  capacity
  groups := Array.ofFn fun i : Fin ((capacity + (groupBits - 1)) / groupBits) =>
    BitGroup.full <<< (capacity - groupBits * i.val)
  size_groups := Array.size_ofFn

/-- Whether a sector is in use, where it has a bit. -/
def used? (b : Bitmap) (i : Nat) : Option Bool :=
  b.groups[i / groupBits]?.map fun g => g.getLsbD (i % groupBits)

def assign (b : Bitmap) (i : Nat) (used : Bool) : Bitmap where
  capacity := b.capacity
  groups := b.groups.modify (i / groupBits) fun g => g.assign (i % groupBits) used
  size_groups := by rw [Array.size_modify, b.size_groups]

@[simp] theorem capacity_assign (b : Bitmap) (i : Nat) (used : Bool) :
    (b.assign i used).capacity = b.capacity := rfl

theorem used?_isSome_iff {b : Bitmap} {i : Nat} :
    (b.used? i).isSome ↔ i / groupBits < (b.capacity + (groupBits - 1)) / groupBits := by
  simp [used?, b.size_groups]

theorem used?_isSome_of_lt {b : Bitmap} {i : Nat} (h : i < b.capacity) : (b.used? i).isSome := by
  rw [used?_isSome_iff]
  simp only [groupBits]
  omega

theorem used?_blank {capacity i : Nat}
    (h : i / groupBits < (capacity + (groupBits - 1)) / groupBits) :
    (blank capacity).used? i = some (decide (capacity ≤ i)) := by
  have hi : i % groupBits < groupBits := Nat.mod_lt _ (by decide)
  have hgroup : (blank capacity).groups[i / groupBits]? =
      some (BitGroup.full <<< (capacity - groupBits * (i / groupBits))) := by
    simp only [blank]
    rw [Array.getElem?_ofFn, dif_pos h]
  rw [used?, hgroup, Option.map_some, BitVec.getLsbD_shiftLeft]
  simp only [groupBits, BitGroup.full, BitVec.getLsbD_allOnes] at *
  by_cases hle : capacity ≤ i
  · simp [hle]
    omega
  · simp [hle]
    omega

theorem used?_assign (b : Bitmap) (i j : Nat) (used : Bool) (hi : (b.used? i).isSome) :
    (b.assign i used).used? j = if j = i then some used else b.used? j := by
  have h := used?_isSome_iff.1 hi
  have hj : j % groupBits < groupBits := Nat.mod_lt _ (by decide)
  rw [used?, assign, Array.getElem?_modify]
  by_cases hg : i / groupBits = j / groupBits
  · obtain ⟨g, hget⟩ : ∃ g, b.groups[j / groupBits]? = some g := by
      rw [← hg]
      exact ⟨_, Array.getElem?_eq_getElem (by rw [b.size_groups]; exact h)⟩
    rw [if_pos hg, hget, Option.map_some, Option.map_some, BitGroup.getLsbD_assign _ _ _ _ hj]
    by_cases hk : j % groupBits = i % groupBits
    · have hij : j = i := by
        simp only [groupBits] at *
        omega
      rw [if_pos hk, if_pos hij]
    · have hij : j ≠ i := fun e => hk (by rw [e])
      rw [if_neg hk, if_neg hij, used?, hget, Option.map_some]
  · rw [if_neg hg, if_neg (fun e => hg (by rw [e])), used?]

/-- A bitmap is known from its capacity and its bits. -/
theorem eq_of_used? {b c : Bitmap} (hcap : b.capacity = c.capacity)
    (h : ∀ i, b.used? i = c.used? i) : b = c := by
  apply Bitmap.ext hcap
  apply Array.ext
  · rw [b.size_groups, c.size_groups, hcap]
  · intro g hb hc
    apply BitVec.eq_of_getLsbD_eq
    intro k hk
    have hdiv : (groupBits * g + k) / groupBits = g := by
      simp only [groupBits] at *
      omega
    have hmod : (groupBits * g + k) % groupBits = k := by
      simp only [groupBits] at *
      omega
    have hbit := h (groupBits * g + k)
    simpa [used?, hdiv, hmod, hb, hc] using hbit

/-- Whether a sector is in use; asking for a sector without a bit is a fault. -/
def isUsed (b : Bitmap) (i : Nat) : Except Fault Bool :=
  match b.used? i with
  | some used => .ok used
  | none => .error .outOfBounds

/-- How many bits are clear. -/
def freeCount (b : Bitmap) : Nat :=
  (List.range (groupBits * b.groups.size)).countP fun i => b.used? i = some false

/-- Sets `count` bits from `start` on that must all be clear. -/
def reserveFrom : (count start : Nat) → Bitmap → Except Fault Bitmap
  | 0, _, b => .ok b
  | count + 1, start, b => do
    if ← b.isUsed start then throw .sectorInUse
    reserveFrom count (start + 1) (b.assign start true)

/-- Clears `count` bits from `start` on that must all be set. -/
def releaseFrom : (count start : Nat) → Bitmap → Except Fault Bitmap
  | 0, _, b => .ok b
  | count + 1, start, b => do
    if !(← b.isUsed start) then throw (.sectorFree start)
    releaseFrom count (start + 1) (b.assign start false)

/-- Sets sectors aside that have a use outside the map. -/
def reserve (b : Bitmap) (sector : UInt32) (count : Nat) : Except Fault Bitmap := do
  let _ ← checkedAdd sector.toNat count
  reserveFrom count sector.toNat b

def release (b : Bitmap) (sector : UInt32) (count : Nat) : Except Fault Bitmap := do
  let _ ← checkedAdd sector.toNat count
  releaseFrom count sector.toNat b

/-- The first free sector: the lowest clear bit of the first group that is not full. -/
def firstFree? (b : Bitmap) : Option Nat :=
  (b.groups.findFinIdx? (· != BitGroup.full)).map fun i =>
    groupBits * i.val + b.groups[i].lowestClear

/-- Looks for `count` free sectors in a row among the last `rest` ones, where those from `start`
on up to there are free. -/
def findRunFrom (b : Bitmap) (count : Nat) : (rest start : Nat) → Option Nat
  | 0, _ => none
  | rest + 1, start =>
    let sector := b.capacity - (rest + 1)
    if b.used? sector = some true then findRunFrom b count rest (sector + 1)
    else if sector + 1 - start = count then some start
    else findRunFrom b count rest start

/-- The first run of `count` free sectors. -/
def firstRun? (b : Bitmap) (count : Nat) : Option Nat := findRunFrom b count b.capacity 0

def assignFrom (used : Bool) : (count start : Nat) → Bitmap → Bitmap
  | 0, _, b => b
  | count + 1, start, b => assignFrom used count (start + 1) (b.assign start used)

/-- Takes `count` sectors in a row and returns the first, if there are so many. -/
def alloc (b : Bitmap) (count : Nat) : Option UInt32 × Bitmap :=
  match if count = 1 then b.firstFree? else b.firstRun? count with
  | some start => (some (UInt32.ofNat start), assignFrom true count start b)
  | none => (none, b)

/-- The longest runs of set bits, as half-open ranges in ascending order. -/
def usedRuns (b : Bitmap) : List (Nat × Nat) :=
  let last := groupBits * b.groups.size
  let step : List (Nat × Nat) × Option Nat → Nat → List (Nat × Nat) × Option Nat
    | (runs, some start), i =>
      if b.used? i = some true then (runs, some start) else ((start, i) :: runs, none)
    | (runs, none), i => if b.used? i = some true then (runs, some i) else (runs, none)
  match (List.range last).foldl step ([], none) with
  | (runs, some start) => ((start, last) :: runs).reverse
  | (runs, none) => runs.reverse

end Bitmap

end SectorVolume
