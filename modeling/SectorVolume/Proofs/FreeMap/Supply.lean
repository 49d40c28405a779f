import SectorVolume.FreeMap
import Mathlib.Data.List.Nodup

/-!
What a free map still has to give. The clear bits of a bitmap in ascending order are its free
sectors, and the search by groups finds the first of them. Behind a quota the first few of them
are the supply of the map: requests for single sectors hand it out from the front and are refused
when it is empty.
-/

namespace SectorVolume

namespace Bitmap

/-- The numbers of the clear bits, in ascending order. -/
def clear (b : Bitmap) : List Nat :=
  (List.range (groupBits * b.groups.size)).filter fun i => b.used? i = some false

theorem freeCount_eq_length (b : Bitmap) : b.freeCount = b.clear.length :=
  List.countP_eq_length_filter

theorem used?_isSome_iff_lt {b : Bitmap} {i : Nat} :
    (b.used? i).isSome ↔ i < groupBits * b.groups.size := by
  simp only [used?_isSome_iff, b.size_groups, groupBits]
  omega

theorem mem_clear {b : Bitmap} {i : Nat} : i ∈ b.clear ↔ b.used? i = some false := by
  simp only [clear, List.mem_filter, List.mem_range, decide_eq_true_eq, and_iff_right_iff_imp]
  intro h
  rw [← used?_isSome_iff_lt, h]
  rfl

theorem nodup_clear (b : Bitmap) : b.clear.Nodup := List.nodup_range.filter _

theorem used?_of_getElem {b : Bitmap} {g k : Nat} (hg : g < b.groups.size) (hk : k < groupBits) :
    b.used? (groupBits * g + k) = some (b.groups[g].getLsbD k) := by
  have hdiv : (groupBits * g + k) / groupBits = g := by
    simp only [groupBits] at *
    omega
  have hmod : (groupBits * g + k) % groupBits = k := by
    simp only [groupBits] at *
    omega
  simp [used?, hdiv, hmod, hg]

/-- The search by groups finds the least clear bit. -/
theorem firstFree?_eq_head? (b : Bitmap) : b.firstFree? = b.clear.head? := by
  rw [clear, List.head?_filter]
  cases hfind : b.groups.findFinIdx? (· != BitGroup.full) with
  | none =>
    rw [firstFree?, hfind, Option.map_none, Eq.comm, List.find?_eq_none]
    intro i hi
    have hfull := Array.findFinIdx?_eq_none_iff.1 hfind
    have hg : i / groupBits < b.groups.size := by
      simp only [List.mem_range, groupBits] at *
      omega
    have hmod : i % groupBits < groupBits := Nat.mod_lt _ (by decide)
    have hgroup : b.groups[i / groupBits] = BitGroup.full := by
      simpa using hfull _ (Array.getElem_mem hg)
    have hused : b.used? i = some true := by
      have h := used?_of_getElem hg hmod
      rwa [Nat.div_add_mod, hgroup, BitGroup.getLsbD_full hmod] at h
    simp [hused]
  | some g =>
    obtain ⟨hne, hfull⟩ := Array.findFinIdx?_eq_some_iff.1 hfind
    have hne' : b.groups[g] ≠ BitGroup.full := by simpa using hne
    have hk := BitGroup.lowestClear_lt hne'
    obtain ⟨hclear, hlow⟩ := (BitGroup.lowestClear_eq_iff hk).1 rfl
    rw [firstFree?, hfind, Option.map_some, Eq.comm, List.find?_range_eq_some]
    refine ⟨?_, ?_, ?_⟩
    · rw [used?_of_getElem g.isLt hk]
      simpa using hclear
    · have hg := g.isLt
      simp only [List.mem_range, groupBits] at *
      omega
    · intro i hi
      have hg : i / groupBits ≤ g.val := by
        simp only [groupBits] at *
        omega
      have hlt : i / groupBits < b.groups.size := Nat.lt_of_le_of_lt hg g.isLt
      have hmod : i % groupBits < groupBits := Nat.mod_lt _ (by decide)
      have hbit := used?_of_getElem hlt hmod
      rw [Nat.div_add_mod] at hbit
      have hset : b.groups[i / groupBits].getLsbD (i % groupBits) = true := by
        rcases Nat.lt_or_eq_of_le hg with hg | hg
        · have hgroup : b.groups[i / groupBits] = BitGroup.full := by
            simpa using hfull ⟨i / groupBits, hlt⟩ hg
          rw [hgroup, BitGroup.getLsbD_full hmod]
        · simp only [hg]
          apply hlow
          simp only [groupBits] at *
          omega
      simp [hbit, hset]

theorem clear_assign_true {b : Bitmap} {i : Nat} (h : b.used? i = some false) :
    (b.assign i true).clear = b.clear.erase i := by
  rw [List.Nodup.erase_eq_filter b.nodup_clear, clear, clear, List.filter_filter]
  have hsize : (b.assign i true).groups.size = b.groups.size := Array.size_modify
  rw [hsize]
  apply List.filter_congr
  intro j _
  rw [used?_assign b i j true (by rw [h]; rfl)]
  by_cases hj : j = i <;> simp [hj]

theorem assign_assign {b : Bitmap} {i : Nat} {used : Bool} (h : b.used? i = some used)
    (other : Bool) : (b.assign i other).assign i used = b := by
  have hsome : (b.used? i).isSome := by rw [h]; rfl
  have hsome' : ((b.assign i other).used? i).isSome := by
    rw [used?_assign _ _ _ _ hsome, if_pos rfl]
    rfl
  refine eq_of_used? (b := (b.assign i other).assign i used) rfl fun j => ?_
  rw [used?_assign _ _ _ _ hsome', used?_assign _ _ _ _ hsome]
  by_cases hj : j = i
  · rw [if_pos hj, hj, h]
  · rw [if_neg hj, if_neg hj]

theorem freeCount_assign_true {b : Bitmap} {i : Nat} (h : b.used? i = some false) :
    (b.assign i true).freeCount + 1 = b.freeCount := by
  have hmem := mem_clear.2 h
  have hpos := List.length_pos_of_mem hmem
  rw [freeCount_eq_length, freeCount_eq_length, clear_assign_true h,
    List.length_erase_of_mem hmem]
  omega

theorem freeCount_assign_false {b : Bitmap} {i : Nat} (h : b.used? i = some true) :
    (b.assign i false).freeCount = b.freeCount + 1 := by
  have hfree : (b.assign i false).used? i = some false := by
    rw [used?_assign _ _ _ _ (by rw [h]; rfl), if_pos rfl]
  rw [← freeCount_assign_true hfree, assign_assign h]

theorem used?_blank_eq_some_false {capacity i : Nat} :
    (blank capacity).used? i = some false ↔ i < capacity := by
  constructor
  · intro hfree
    have hbit : i / groupBits < (capacity + (groupBits - 1)) / groupBits :=
      (used?_isSome_iff (b := blank capacity)).1 (by rw [hfree]; rfl)
    rw [used?_blank hbit, Option.some.injEq] at hfree
    exact Nat.lt_of_not_le (of_decide_eq_false hfree)
  · intro hlt
    have hbit : i / groupBits < (capacity + (groupBits - 1)) / groupBits :=
      used?_isSome_iff.1 (used?_isSome_of_lt (b := blank capacity) hlt)
    rw [used?_blank hbit, decide_eq_false (Nat.not_le.2 hlt)]

/-- Clear bits that lie in a row. -/
theorem clear_eq_range' {b : Bitmap} {start stop : Nat}
    (h : ∀ i, b.used? i = some false ↔ start ≤ i ∧ i < stop) :
    b.clear = List.range' start (stop - start) := by
  have hperm : b.clear.Perm (List.range' start (stop - start)) := by
    rw [List.perm_ext_iff_of_nodup (nodup_clear _) List.nodup_range']
    intro i
    rw [mem_clear, h, List.mem_range'_1]
    omega
  refine hperm.eq_of_pairwise (fun a b _ _ hab hba => absurd hab (Nat.lt_asymm hba)) ?_
    List.pairwise_lt_range'
  exact List.pairwise_lt_range.filter _

theorem freeCount_eq_of_clear {b : Bitmap} {start stop : Nat}
    (h : ∀ i, b.used? i = some false ↔ start ≤ i ∧ i < stop) : b.freeCount = stop - start := by
  rw [freeCount_eq_length, clear_eq_range' h, List.length_range']

theorem release_of_used {b : Bitmap} {sector : UInt32} (h : b.used? sector.toNat = some true) :
    b.release sector 1 = .ok (b.assign sector.toNat false) := by
  have hlt := sector.toNat_lt
  have hsum : checkedAdd sector.toNat 1 = .ok (sector.toNat + 1) := by
    rw [checkedAdd_eq_ok_iff]
    refine ⟨?_, rfl⟩
    simp only [wordLimit]
    omega
  simp [release, hsum, releaseFrom, isUsed, h, bind, Except.bind]

/-- The clear bits stand for sectors of a disk of `n` sectors, and none for the null pointer. -/
def Within (b : Bitmap) (n : Nat) : Prop :=
  ∀ i, b.used? i = some false → 0 < i ∧ i < n ∧ i < UInt32.size

/-- A bitmap that covers no more sectors than the disk has and no more than can be numbered, with
the tail of its last group and the null sector set. -/
theorem within_of_capacity_le {b : Bitmap} {n : Nat} (hn : b.capacity ≤ n)
    (hsize : b.capacity ≤ UInt32.size) (htail : ∀ i, b.capacity ≤ i → b.used? i ≠ some false)
    (hzero : b.used? 0 ≠ some false) : b.Within n := by
  intro i hi
  have hlt : i < b.capacity := Nat.lt_of_not_le fun hle => htail i hle hi
  have hpos : i ≠ 0 := by
    rintro rfl
    exact hzero hi
  omega

end Bitmap

namespace FreeMap

/-- The sectors that requests get one after the other. -/
def supply (m : FreeMap) : List UInt32 :=
  let free := m.bitmap.clear.map UInt32.ofNat
  match m.quota with
  | none => free
  | some q => free.take q

def grant (m : FreeMap) (s : UInt32) : FreeMap where
  bitmap := m.bitmap.assign s.toNat true
  quota := m.quota.map (· - 1)
  ledger := .granted s 1 :: m.ledger

def refuse (m : FreeMap) : FreeMap where
  bitmap := m.bitmap
  quota := m.quota.map (· - 1)
  ledger := .refused 1 :: m.ledger

def takeBack (m : FreeMap) (s : UInt32) : FreeMap where
  bitmap := m.bitmap.assign s.toNat false
  quota := m.quota
  ledger := .returned s 1 :: m.ledger

theorem supply_subset {m : FreeMap} {s : UInt32} (h : s ∈ m.supply) :
    s ∈ m.bitmap.clear.map UInt32.ofNat := by
  rw [supply] at h
  cases hq : m.quota with
  | none => simpa [hq] using h
  | some q =>
    simp only [hq] at h
    exact List.mem_of_mem_take h

theorem mem_supply {m : FreeMap} {n : Nat} (hw : m.bitmap.Within n) {s : UInt32}
    (h : s ∈ m.supply) : m.bitmap.used? s.toNat = some false := by
  obtain ⟨i, hi, rfl⟩ := List.mem_map.1 (supply_subset h)
  rw [Bitmap.mem_clear] at hi
  rwa [UInt32.toNat_ofNat_of_lt' (hw i hi).2.2]

/-- What is in use is not handed out. -/
theorem notMem_supply {m : FreeMap} {n : Nat} (hw : m.bitmap.Within n) {s : UInt32}
    (hs : m.bitmap.used? s.toNat = some true) : s ∉ m.supply := by
  intro hmem
  rw [mem_supply hw hmem] at hs
  exact absurd hs (by decide)

theorem nodup_supply {m : FreeMap} {n : Nat} (hw : m.bitmap.Within n) : m.supply.Nodup := by
  have hfree : (m.bitmap.clear.map UInt32.ofNat).Nodup := by
    apply List.Nodup.map_on _ m.bitmap.nodup_clear
    intro i hi j hj heq
    have hi' := (hw i (Bitmap.mem_clear.1 hi)).2.2
    have hj' := (hw j (Bitmap.mem_clear.1 hj)).2.2
    rw [← UInt32.toNat_ofNat_of_lt' hi', heq, UInt32.toNat_ofNat_of_lt' hj']
  rw [supply]
  cases m.quota with
  | none => exact hfree
  | some q => exact hfree.sublist (List.take_sublist _ _)

theorem alloc_of_supply_nil {m : FreeMap} (h : m.supply = []) : m.alloc 1 = (none, m.refuse) := by
  obtain ⟨bitmap, quota, ledger⟩ := m
  have hbitmap : bitmap.clear = [] → bitmap.alloc 1 = (none, bitmap) := by
    intro hclear
    simp [Bitmap.alloc, Bitmap.firstFree?_eq_head?, hclear]
  cases quota with
  | none =>
    simp only [supply, List.map_eq_nil_iff] at h
    simp [alloc, hbitmap h, refuse]
  | some q =>
    cases q with
    | zero => rfl
    | succ q =>
      simp only [supply, List.take_eq_nil_iff, List.map_eq_nil_iff] at h
      have hclear := h.resolve_left (by simp)
      simp [alloc, hbitmap hclear, refuse]

theorem alloc_of_supply_cons {m : FreeMap} {s : UInt32} {rest : List UInt32}
    (h : m.supply = s :: rest) (n : Nat) (hw : m.bitmap.Within n) :
    m.alloc 1 = (some s, m.grant s) := by
  obtain ⟨bitmap, quota, ledger⟩ := m
  have hbitmap : ∀ tail, bitmap.clear.map UInt32.ofNat = s :: tail →
      bitmap.alloc 1 = (some s, bitmap.assign s.toNat true) := by
    intro tail hfree
    obtain ⟨i, clears, hclear, rfl, _⟩ := List.map_eq_cons_iff.1 hfree
    have hi : bitmap.used? i = some false := Bitmap.mem_clear.1 (by simp [hclear])
    simp [Bitmap.alloc, Bitmap.firstFree?_eq_head?, hclear, Bitmap.assignFrom,
      UInt32.toNat_ofNat_of_lt' (hw i hi).2.2]
  cases quota with
  | none =>
    simp only [supply] at h
    simp [alloc, hbitmap rest h, grant]
  | some q =>
    cases q with
    | zero => simp [supply] at h
    | succ q =>
      simp only [supply] at h
      cases hfree : bitmap.clear.map UInt32.ofNat with
      | nil => simp [hfree] at h
      | cons a tail =>
        rw [hfree, List.take_succ_cons, List.cons.injEq] at h
        rw [h.1] at hfree
        simp [alloc, hbitmap tail hfree, grant]

theorem supply_grant {m : FreeMap} {s : UInt32} {rest : List UInt32} (h : m.supply = s :: rest)
    {n : Nat} (hw : m.bitmap.Within n) : (m.grant s).supply = rest := by
  have hused := mem_supply hw (s := s) (by simp [h])
  have hfree : ∀ tail, m.bitmap.clear.map UInt32.ofNat = s :: tail →
      (m.bitmap.assign s.toNat true).clear.map UInt32.ofNat = tail := by
    intro tail hmap
    obtain ⟨i, clears, hclear, rfl, rfl⟩ := List.map_eq_cons_iff.1 hmap
    have hi : m.bitmap.used? i = some false := Bitmap.mem_clear.1 (by simp [hclear])
    rw [UInt32.toNat_ofNat_of_lt' (hw i hi).2.2, Bitmap.clear_assign_true hi, hclear,
      List.erase_cons_head]
  rw [supply] at h ⊢
  cases hq : m.quota with
  | none =>
    simp only [hq] at h
    simp only [grant, hq, Option.map_none]
    exact hfree rest h
  | some q =>
    cases q with
    | zero => simp [hq] at h
    | succ q =>
      simp only [hq] at h
      cases hmap : m.bitmap.clear.map UInt32.ofNat with
      | nil => simp [hmap] at h
      | cons a tail =>
        rw [hmap, List.take_succ_cons, List.cons.injEq] at h
        rw [h.1] at hmap
        simp only [grant, hq, Option.map_some, Nat.add_sub_cancel, hfree tail hmap]
        exact h.2

theorem release_of_used {m : FreeMap} {s : UInt32} (h : m.bitmap.used? s.toNat = some true) :
    m.release s 1 = .ok (m.takeBack s) := by
  rw [release, Bitmap.release_of_used h]
  rfl

end FreeMap

end SectorVolume
