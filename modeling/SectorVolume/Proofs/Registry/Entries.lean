import SectorVolume.Table
import Mathlib.Data.List.Perm.Basic

/-!
The entries of a table as a list. In a table that is in order every key stands once, so putting a
value under a key, or taking one away, changes one entry and leaves the others; and what is found
under the keys tells the whole table.
-/

namespace SectorVolume

namespace Table

variable {κ α β : Type} {f g : α → β}

/-- Other values under the same keys. -/
def map (f : α → β) (t : Table κ α) : Table κ β := ⟨t.entries.map fun e => (e.1, f e.2)⟩

@[simp] theorem size_map (t : Table κ α) : (t.map f).size = t.size := List.length_map _

def values (t : Table κ α) : List α := t.entries.map Prod.snd

theorem map_congr {t : Table κ α} (h : ∀ e ∈ t.entries, f e.2 = g e.2) : t.map f = t.map g :=
  congrArg mk (List.map_congr_left fun e he => Prod.ext rfl (h e he))

section Lookup

variable [DecidableEq κ] {t : Table κ α} {k : κ} {a : α}

@[simp] theorem get?_map (t : Table κ α) (k : κ) : (t.map f).get? k = (t.get? k).map f := by
  simp only [get?, map, List.find?_map, Option.map_map]
  rfl

theorem map_erase (t : Table κ α) (k : κ) : (t.erase k).map f = (t.map f).erase k := by
  simp only [map, erase, List.filter_map, mk.injEq]
  rfl

theorem erase_of_none (hk : t.get? k = none) : t.erase k = t := by
  obtain ⟨entries⟩ := t
  simp only [get?, erase, Option.map_eq_none_iff, List.find?_eq_none, decide_eq_true_eq] at hk ⊢
  congr 1
  exact List.filter_eq_self.2 fun e he => decide_eq_true (hk e he)

theorem mem_of_get? (hk : t.get? k = some a) : (k, a) ∈ t.entries := by
  simp only [get?, Option.map_eq_some_iff] at hk
  obtain ⟨e, he, rfl⟩ := hk
  have hkey := List.find?_some he
  simp only [decide_eq_true_eq] at hkey
  rw [← hkey]
  exact List.mem_of_find?_eq_some he

theorem mem_values (hk : t.get? k = some a) : a ∈ t.values :=
  List.mem_map.2 ⟨(k, a), mem_of_get? hk, rfl⟩

theorem eq_empty_of_get?_eq_none (h : ∀ k, t.get? k = none) : t = empty := by
  obtain ⟨entries⟩ := t
  cases entries with
  | nil => rfl
  | cons e rest =>
    have hhead := h e.1
    simp [get?] at hhead

end Lookup

/-- The keys stand in ascending order. -/
def Sorted [LT κ] (t : Table κ α) : Prop := t.entries.Pairwise fun e e' => e.1 < e'.1

theorem sorted_empty [LT κ] : (empty : Table κ α).Sorted := List.Pairwise.nil

theorem Sorted.map [LT κ] {t : Table κ α} (h : t.Sorted) : (t.map f).Sorted :=
  List.pairwise_map.2 h

theorem Sorted.erase [LT κ] [DecidableEq κ] {t : Table κ α} (h : t.Sorted) (k : κ) :
    (t.erase k).Sorted := List.Pairwise.filter _ h

theorem mem_insertEntry [LT κ] [DecidableLT κ] [DecidableEq κ] {entries : List (κ × α)}
    {e : κ × α} {k : κ} {a : α} (h : e ∈ insertEntry k a entries) : e = (k, a) ∨ e ∈ entries := by
  induction entries with
  | nil => exact Or.inl (List.mem_singleton.1 h)
  | cons first rest ih =>
    unfold insertEntry at h
    split at h
    · exact List.mem_cons.1 h
    · split at h
      · exact (List.mem_cons.1 h).imp_right (List.mem_cons_of_mem _)
      · rcases List.mem_cons.1 h with rfl | h
        · exact Or.inr List.mem_cons_self
        · exact (ih h).imp_right (List.mem_cons_of_mem _)

section Order

variable [LE κ] [LT κ] [Std.LawfulOrderLT κ] [DecidableEq κ] {t t' : Table κ α} {k : κ} {a : α}

/-- Only the entry under the key goes. -/
theorem Sorted.perm_erase (h : t.Sorted) (hk : t.get? k = some a) :
    t.entries.Perm ((k, a) :: (t.erase k).entries) := by
  obtain ⟨entries⟩ := t
  simp only [get?, Table.erase] at hk ⊢
  change entries.Pairwise _ at h
  induction entries with
  | nil => exact absurd hk (by simp)
  | cons first rest ih =>
    obtain ⟨hfirst, hrest⟩ := List.pairwise_cons.1 h
    by_cases heq : first.1 = k
    · obtain rfl : first = (k, a) := by
        simp only [List.find?_cons_of_pos (p := fun e : κ × α => decide (e.1 = k))
          (decide_eq_true heq), Option.map_some, Option.some.injEq] at hk
        exact Prod.ext heq hk
      have hall : rest.filter (fun e => decide (e.1 ≠ k)) = rest := by
        apply List.filter_eq_self.2
        intro e he
        exact decide_eq_true (Std.ne_of_lt (hfirst e he)).symm
      rw [List.filter_cons_of_neg (by simp), hall]
    · rw [List.find?_cons_of_neg (by simpa using heq)] at hk
      rw [List.filter_cons_of_pos (by simpa using heq)]
      exact ((ih hk hrest).cons first).trans (List.Perm.swap _ _ _)

theorem Sorted.perm_values_erase (h : t.Sorted) (hk : t.get? k = some a) :
    t.values.Perm (a :: (t.erase k).values) := (h.perm_erase hk).map Prod.snd

/-- Taking the first entry away. -/
theorem Sorted.erase_head {rest : List (κ × α)} (h : Sorted ⟨(k, a) :: rest⟩) :
    (⟨(k, a) :: rest⟩ : Table κ α).erase k = ⟨rest⟩ := by
  have hfirst := (List.pairwise_cons.1 h).1
  simp only [Table.erase, mk.injEq]
  rw [List.filter_cons_of_neg (by simp)]
  apply List.filter_eq_self.2
  intro e he
  exact decide_eq_true (Std.ne_of_lt (hfirst e he)).symm

/-- What stands under a key is found there. -/
theorem Sorted.get?_of_mem (h : t.Sorted) (hmem : (k, a) ∈ t.entries) : t.get? k = some a := by
  obtain ⟨entries⟩ := t
  simp only [get?]
  change entries.Pairwise _ at h
  change (k, a) ∈ entries at hmem
  induction entries with
  | nil => cases hmem
  | cons first rest ih =>
    obtain ⟨hfirst, hrest⟩ := List.pairwise_cons.1 h
    rcases List.mem_cons.1 hmem with rfl | hmem
    · simp
    · have hlt : first.1 < k := hfirst (k, a) hmem
      rw [List.find?_cons_of_neg (by simpa using Std.ne_of_lt hlt)]
      exact ih hrest hmem

variable [Std.IsLinearOrder κ]

/-- Tables in order with the same values under all keys are the same. -/
theorem Sorted.ext (h : t.Sorted) (h' : t'.Sorted) (hget : ∀ k, t.get? k = t'.get? k) :
    t = t' := by
  have hnodup : ∀ {u : Table κ α}, u.Sorted → u.entries.Nodup := fun hu =>
    List.Pairwise.imp (fun hlt heq => Std.ne_of_lt hlt (congrArg Prod.fst heq)) hu
  have hmem : ∀ e, e ∈ t.entries ↔ e ∈ t'.entries := by
    rintro ⟨k, a⟩
    constructor
    · intro he
      exact mem_of_get? ((hget k).symm.trans (h.get?_of_mem he))
    · intro he
      exact mem_of_get? ((hget k).trans (h'.get?_of_mem he))
  have hperm : t.entries.Perm t'.entries :=
    (List.perm_ext_iff_of_nodup (hnodup h) (hnodup h')).2 hmem
  refine congrArg mk (List.Perm.eq_of_pairwise (fun e e' _ _ hlt hgt => ?_) h h' hperm)
  exact absurd (Std.lt_trans hlt hgt) Std.lt_irrefl

variable [DecidableLT κ]

theorem Sorted.insert (h : t.Sorted) (k : κ) (a : α) : (t.insert k a).Sorted := by
  obtain ⟨entries⟩ := t
  change (insertEntry k a entries).Pairwise _
  change entries.Pairwise _ at h
  induction entries with
  | nil => exact List.pairwise_singleton _ _
  | cons first rest ih =>
    obtain ⟨hfirst, hrest⟩ := List.pairwise_cons.1 h
    unfold insertEntry
    split
    · rename_i hlt
      refine List.pairwise_cons.2 ⟨fun e he => ?_, h⟩
      rcases List.mem_cons.1 he with rfl | he
      · exact hlt
      · exact Std.lt_trans hlt (hfirst e he)
    · split
      · rename_i heq
        exact List.pairwise_cons.2 ⟨fun e he => heq ▸ hfirst e he, hrest⟩
      · rename_i hge hne
        refine List.pairwise_cons.2 ⟨fun e he => ?_, ih hrest⟩
        rcases mem_insertEntry he with rfl | he
        · exact Std.lt_of_le_of_ne (Std.not_lt.1 hge) hne
        · exact hfirst e he

/-- One entry comes, in place of the one that was under the key. -/
theorem Sorted.perm_insert (h : t.Sorted) (k : κ) (a : α) :
    (t.insert k a).entries.Perm ((k, a) :: (t.erase k).entries) := by
  have hsorted := h.insert k a
  have hget : (t.insert k a).get? k = some a := by rw [get?_insert, if_pos rfl]
  have herase : (t.insert k a).erase k = t.erase k := by
    obtain ⟨entries⟩ := t
    simp only [Table.erase, Table.insert, mk.injEq]
    clear h hsorted hget
    induction entries with
    | nil => simp [insertEntry]
    | cons first rest ih =>
      unfold insertEntry
      split
      · rw [List.filter_cons_of_neg (by simp)]
      · split
        · rename_i heq
          rw [List.filter_cons_of_neg (by simp), List.filter_cons_of_neg (by simpa using heq)]
        · rename_i hne
          rw [List.filter_cons_of_pos (by simpa using hne), ih,
            List.filter_cons_of_pos (by simpa using hne)]
  rw [← herase]
  exact hsorted.perm_erase hget

theorem Sorted.perm_values_insert (h : t.Sorted) (k : κ) (a : α) :
    (t.insert k a).values.Perm (a :: (t.erase k).values) := (h.perm_insert k a).map Prod.snd

/-- A value comes where there was none. -/
theorem Sorted.perm_values_insert_of_none (h : t.Sorted) (hk : t.get? k = none) (a : α) :
    (a :: t.values).Perm (t.insert k a).values := by
  have hinsert := h.perm_values_insert k a
  rw [erase_of_none hk] at hinsert
  exact hinsert.symm

/-- A value comes in place of another. -/
theorem Sorted.perm_values_replace (h : t.Sorted) {old : α} (hk : t.get? k = some old) (a : α) :
    (a :: t.values).Perm (old :: (t.insert k a).values) :=
  ((h.perm_values_erase hk).cons a).trans
    ((List.Perm.swap _ _ _).trans ((h.perm_values_insert k a).symm.cons old))

theorem Sorted.map_insert (h : t.Sorted) (k : κ) (a : α) :
    (t.insert k a).map f = (t.map f).insert k (f a) := by
  refine (h.insert k a).map.ext (h.map.insert k (f a)) fun j => ?_
  rw [get?_map, get?_insert, get?_insert, get?_map]
  split <;> rfl

end Order

end Table

end SectorVolume
