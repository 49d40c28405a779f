/-!
Small tables: at most one value for a key, in ascending order of the keys.
-/

namespace SectorVolume

structure Table (κ : Type) (α : Type) where
  entries : List (κ × α) := []

namespace Table

variable {κ α : Type}

def empty : Table κ α := {}

def size (t : Table κ α) : Nat := t.entries.length

section Lookup

variable [DecidableEq κ]

def get? (t : Table κ α) (k : κ) : Option α :=
  (t.entries.find? fun e => e.1 = k).map Prod.snd

def erase (t : Table κ α) (k : κ) : Table κ α := ⟨t.entries.filter fun e => e.1 ≠ k⟩

@[simp] theorem get?_empty (k : κ) : (empty : Table κ α).get? k = none := rfl

theorem get?_erase (t : Table κ α) (k j : κ) :
    (t.erase k).get? j = if j = k then none else t.get? j := by
  simp only [get?, erase]
  induction t.entries with
  | nil => simp
  | cons e rest ih =>
    by_cases he : e.1 = k
    · by_cases h : j = k
      · simp_all
      · simp_all [Ne.symm h]
    · by_cases h : j = k
      · simp_all
      · by_cases hj : e.1 = j
        · simp_all
        · simp_all

end Lookup

section Insert

variable [DecidableEq κ] [LT κ] [DecidableLT κ]

def insertEntry (k : κ) (a : α) : List (κ × α) → List (κ × α)
  | [] => [(k, a)]
  | e :: rest =>
    if k < e.1 then (k, a) :: e :: rest
    else if e.1 = k then (k, a) :: rest
    else e :: insertEntry k a rest

def insert (t : Table κ α) (k : κ) (a : α) : Table κ α := ⟨insertEntry k a t.entries⟩

theorem get?_insert (t : Table κ α) (k j : κ) (a : α) :
    (t.insert k a).get? j = if j = k then some a else t.get? j := by
  simp only [get?, insert]
  induction t.entries with
  | nil =>
    by_cases h : j = k
    · simp [insertEntry, h]
    · simp [insertEntry, h, Ne.symm h]
  | cons e rest ih =>
    unfold insertEntry
    by_cases h : j = k
    · subst h
      simp only [if_true] at ih ⊢
      split
      · simp
      · split
        · simp
        · rename_i hne
          simp [hne, ih]
    · have hk : k ≠ j := Ne.symm h
      simp only [if_neg h] at ih ⊢
      split
      · simp [hk]
      · split
        · rename_i he
          simp [hk, he]
        · by_cases he : e.1 = j
          · simp [he]
          · simp [he, ih]

end Insert

end Table

end SectorVolume
