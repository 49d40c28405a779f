import SectorVolume.Inode.Index
import Mathlib.Algebra.BigOperators.Group.List.Basic
import Mathlib.Algebra.Ring.Nat
import Mathlib.Data.List.Nodup
import Mathlib.Data.List.OfFn
import Mathlib.Data.List.Perm.Basic

/-!
The blocks under a pointer as a tree, and the blocks of a file as a row of trees. A tree of level
0 is a data block, a tree of level `l + 1` an index block with 128 trees of level `l` below it;
any of them may be a hole. The first `n` data blocks of a row are shared out from the left: every
tree gets what is left by the trees before it.
-/

namespace SectorVolume

inductive Tree : Nat → Type
  | hole {level : Nat} : Tree level
  | data (sector : UInt32) : Tree 0
  | index {level : Nat} (sector : UInt32) (below : Fin 128 → Tree level) : Tree (level + 1)

/-- Trees in a row, each with its level. -/
abbrev Forest := List ((level : Nat) × Tree level)

namespace Tree

/-- All sectors of a tree, an index block before what is below it. -/
def sectors : {level : Nat} → Tree level → List UInt32
  | _, hole => []
  | _, data s => [s]
  | _, index s below => s :: (List.ofFn fun k => (below k).sectors).flatten

/-- The sectors of the data blocks. -/
def leaves : {level : Nat} → Tree level → List UInt32
  | _, hole => []
  | _, data s => [s]
  | _, index _ below => (List.ofFn fun k => (below k).leaves).flatten

/-- The sectors of the index blocks. -/
def nodes : {level : Nat} → Tree level → List UInt32
  | _, hole => []
  | _, data _ => []
  | _, index s below => s :: (List.ofFn fun k => (below k).nodes).flatten

/-- The sector of data block `i`. -/
def block? : {level : Nat} → Tree level → Nat → Option UInt32
  | _, hole, _ => none
  | _, data s, _ => some s
  | _, @index level _ below, i =>
    if h : i / span level < 128 then (below ⟨i / span level, h⟩).block? (i % span level) else none

/-- Just the first `n` data blocks are there, and just the index blocks on the way to them. -/
def Fits : {level : Nat} → Tree level → Nat → Prop
  | _, hole, n => n = 0
  | _, data _, n => n ≠ 0
  | _, @index level _ below, n => n ≠ 0 ∧ ∀ k, (below k).Fits (n - k.val * span level)

/-- The sectors that are not needed for the first `n` data blocks, those below an index block
before it. -/
def beyond : {level : Nat} → Tree level → Nat → List UInt32
  | _, hole, _ => []
  | _, data s, n => if n = 0 then [s] else []
  | _, @index level s below, n =>
    (List.ofFn fun k => (below k).beyond (n - k.val * span level)).flatten ++
      if n = 0 then [s] else []

/-- The trees below an index block; below a hole there are holes. -/
def child {level : Nat} (t : Tree (level + 1)) (k : Fin 128) : Tree level :=
  match t with
  | hole => hole
  | index _ below => below k

def isHole : {level : Nat} → Tree level → Bool
  | _, hole => true
  | _, _ => false

/-- How many sectors are missing for the first `n` data blocks. -/
def lacking : {level : Nat} → Tree level → Nat → Nat
  | 0, t, n => if t.isHole ∧ n ≠ 0 then 1 else 0
  | level + 1, t, n =>
    (if t.isHole ∧ n ≠ 0 then 1 else 0) +
      (List.ofFn fun k => (t.child k).lacking (n - k.val * span level)).sum

end Tree

namespace Forest

/-- The trees below an index block in a row. -/
def ofBelow {level : Nat} (below : Fin 128 → Tree level) : Forest :=
  List.ofFn fun k => ⟨level, below k⟩

/-- What is below an index block that is not there. -/
abbrev holes (level : Nat) : Forest := ofBelow fun _ => (.hole : Tree level)

/-- How many data blocks a row of trees has places for. -/
def span : Forest → Nat
  | [] => 0
  | t :: rest => SectorVolume.span t.1 + span rest

/-- The trees of a row with how many data blocks from there on are needed. -/
def shares : Forest → Nat → List (((level : Nat) × Tree level) × Nat)
  | [], _ => []
  | t :: rest, n => (t, n) :: shares rest (n - SectorVolume.span t.1)

def sectors (F : Forest) : List UInt32 := F.flatMap fun t => t.2.sectors

def leaves (F : Forest) : List UInt32 := F.flatMap fun t => t.2.leaves

def nodes (F : Forest) : List UInt32 := F.flatMap fun t => t.2.nodes

def Fits (F : Forest) (n : Nat) : Prop := ∀ share ∈ F.shares n, share.1.2.Fits share.2

def beyond (F : Forest) (n : Nat) : List UInt32 :=
  (F.shares n).flatMap fun share => share.1.2.beyond share.2

def lacking (F : Forest) (n : Nat) : Nat :=
  ((F.shares n).map fun share => share.1.2.lacking share.2).sum

/-- The sector of data block `i` of a row. -/
def block? : Forest → Nat → Option UInt32
  | [], _ => none
  | t :: rest, i =>
    if i < SectorVolume.span t.1 then t.2.block? i else block? rest (i - SectorVolume.span t.1)

section Rows

variable (t : (level : Nat) × Tree level) (F G : Forest) (n : Nat)

theorem span_cons {level : Nat} (t : Tree level) :
    span (⟨level, t⟩ :: F) = SectorVolume.span level + F.span := rfl

@[simp] theorem span_append : (F ++ G : Forest).span = F.span + G.span := by
  induction F with
  | nil => simp [span]
  | cons t F ih => simp only [List.cons_append, span, ih, Nat.add_assoc]

@[simp] theorem shares_append :
    (F ++ G : Forest).shares n = F.shares n ++ G.shares (n - F.span) := by
  induction F generalizing n with
  | nil => simp [shares, span]
  | cons t F ih => simp only [List.cons_append, shares, ih, span, Nat.sub_sub]

@[simp] theorem sectors_append : (F ++ G : Forest).sectors = F.sectors ++ G.sectors :=
  List.flatMap_append

@[simp] theorem leaves_append : (F ++ G : Forest).leaves = F.leaves ++ G.leaves :=
  List.flatMap_append

@[simp] theorem nodes_append : (F ++ G : Forest).nodes = F.nodes ++ G.nodes :=
  List.flatMap_append

@[simp] theorem beyond_append :
    (F ++ G : Forest).beyond n = F.beyond n ++ G.beyond (n - F.span) := by
  simp only [beyond, shares_append, List.flatMap_append]

@[simp] theorem lacking_append :
    (F ++ G : Forest).lacking n = F.lacking n + G.lacking (n - F.span) := by
  simp only [lacking, shares_append, List.map_append, List.sum_append]

theorem fits_append : (F ++ G : Forest).Fits n ↔ F.Fits n ∧ G.Fits (n - F.span) := by
  simp only [Fits, shares_append, List.mem_append, or_imp, forall_and]

@[simp] theorem sectors_nil : sectors [] = [] := rfl

@[simp] theorem leaves_nil : leaves [] = [] := rfl

@[simp] theorem nodes_nil : nodes [] = [] := rfl

@[simp] theorem beyond_nil : beyond [] n = [] := rfl

@[simp] theorem lacking_nil : lacking [] n = 0 := rfl

theorem fits_nil : Fits [] n := by
  intro share hshare
  exact absurd hshare (by simp [shares])

@[simp] theorem sectors_cons : sectors (t :: F) = t.2.sectors ++ F.sectors := List.flatMap_cons

@[simp] theorem leaves_cons : leaves (t :: F) = t.2.leaves ++ F.leaves := List.flatMap_cons

@[simp] theorem nodes_cons : nodes (t :: F) = t.2.nodes ++ F.nodes := List.flatMap_cons

@[simp] theorem beyond_cons :
    beyond (t :: F) n = t.2.beyond n ++ F.beyond (n - SectorVolume.span t.1) := List.flatMap_cons

@[simp] theorem lacking_cons :
    lacking (t :: F) n = t.2.lacking n + F.lacking (n - SectorVolume.span t.1) := by
  simp only [lacking, shares, List.map_cons, List.sum_cons]

theorem fits_cons {level : Nat} (t : Tree level) :
    Fits (⟨level, t⟩ :: F) n ↔ t.Fits n ∧ F.Fits (n - SectorVolume.span level) := by
  simp only [Fits, shares, List.mem_cons, forall_eq_or_imp]

end Rows

/-- Trees of one level share out what is needed in equal parts. -/
theorem shares_ofFn {level m : Nat} (f : Fin m → Tree level) (n : Nat) :
    shares (List.ofFn fun k => ⟨level, f k⟩) n =
      List.ofFn fun k => (⟨level, f k⟩, n - k.val * SectorVolume.span level) := by
  induction m generalizing n with
  | zero => rfl
  | succ m ih =>
    rw [List.ofFn_succ, List.ofFn_succ, shares, ih]
    simp only [Fin.val_zero, Nat.zero_mul, Nat.sub_zero, Fin.val_succ, Nat.sub_sub, Nat.add_mul,
      Nat.one_mul, Nat.add_comm]

theorem span_ofFn {level m : Nat} (f : Fin m → Tree level) :
    span (List.ofFn fun k => ⟨level, f k⟩) = m * SectorVolume.span level := by
  induction m with
  | zero => simp [span]
  | succ m ih => rw [List.ofFn_succ, span, ih, Nat.add_mul, Nat.one_mul, Nat.add_comm]

end Forest

namespace Tree

variable {level : Nat} (s : UInt32) (below : Fin 128 → Tree level) (n : Nat)

@[simp] theorem sectors_hole : (hole : Tree level).sectors = [] := by rw [sectors]

@[simp] theorem sectors_index :
    (index s below).sectors = s :: (Forest.ofBelow below).sectors := by
  simp only [sectors, Forest.sectors, Forest.ofBelow, List.flatMap, List.map_ofFn]
  rfl

@[simp] theorem leaves_index : (index s below).leaves = (Forest.ofBelow below).leaves := by
  simp only [leaves, Forest.leaves, Forest.ofBelow, List.flatMap, List.map_ofFn]
  rfl

@[simp] theorem nodes_index : (index s below).nodes = s :: (Forest.ofBelow below).nodes := by
  simp only [nodes, Forest.nodes, Forest.ofBelow, List.flatMap, List.map_ofFn]
  rfl

@[simp] theorem beyond_index :
    (index s below).beyond n = (Forest.ofBelow below).beyond n ++ if n = 0 then [s] else [] := by
  simp only [beyond, Forest.beyond, Forest.ofBelow, Forest.shares_ofFn, List.flatMap,
    List.map_ofFn]
  rfl

theorem fits_index :
    (index s below).Fits n ↔ n ≠ 0 ∧ (Forest.ofBelow below).Fits n := by
  simp only [Fits, Forest.Fits, Forest.ofBelow, Forest.shares_ofFn, List.mem_ofFn,
    forall_exists_index, forall_apply_eq_imp_iff]

@[simp] theorem lacking_data : (data s).lacking n = 0 := by
  simp [lacking, isHole]

@[simp] theorem lacking_hole_zero : (hole : Tree 0).lacking n = if n = 0 then 0 else 1 := by
  by_cases h : n = 0 <;> simp [lacking, isHole, h]

@[simp] theorem lacking_index : (index s below).lacking n = (Forest.ofBelow below).lacking n := by
  simp only [lacking, isHole, Forest.lacking, Forest.ofBelow, Forest.shares_ofFn, List.map_ofFn,
    Bool.false_eq_true, false_and, if_false, Nat.zero_add]
  rfl

@[simp] theorem lacking_hole_succ :
    (hole : Tree (level + 1)).lacking n =
      (if n = 0 then 0 else 1) + (Forest.holes level).lacking n := by
  have hown :
      (if (hole : Tree (level + 1)).isHole ∧ n ≠ 0 then 1 else 0) = if n = 0 then 0 else 1 := by
    by_cases h : n = 0 <;> simp [isHole, h]
  rw [lacking, hown]
  simp only [Forest.lacking, Forest.holes, Forest.ofBelow, Forest.shares_ofFn, List.map_ofFn]
  rfl

end Tree

end SectorVolume
