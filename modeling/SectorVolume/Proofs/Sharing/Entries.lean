import SectorVolume.Proofs.Sharing.Model

/-!
What holds of the entries of open files. Every registered entry is one of its sector and counts
the handles that hold it; every entry that a handle holds is the one registered for its sector. So
two handles hold one entry just where they are on one sector, and the registry of entries by
sector is the one in which handles look theirs up.
-/

namespace SectorVolume

namespace OpenFiles

variable {r r' r'' : OpenFiles} {place p : Nat} {x : UInt32} {e : OpenEntry}

section File

theorem file_change_self (h : place < r.entries.length) :
    (r.change place e).file place = ⟨e, (r.file place).sector⟩ := by
  rw [file, change, List.getD_eq_getElem?_getD, List.getElem?_set_self h]
  rfl

theorem file_change_of_ne (h : p ≠ place) : (r.change place e).file p = r.file p := by
  rw [file, change, List.getD_eq_getElem?_getD, List.getElem?_set_ne (Ne.symm h), file,
    List.getD_eq_getElem?_getD]

theorem file_register_of_lt (h : p < r.entries.length) : (r.register x).file p = r.file p := by
  rw [file, register, List.getD_eq_getElem?_getD, List.getElem?_append_left h, file,
    List.getD_eq_getElem?_getD]

theorem file_register_self : (r.register x).file r.entries.length = ⟨.fresh, x⟩ := by
  rw [file, register, List.getD_eq_getElem?_getD, List.getElem?_concat_length]
  rfl

theorem get?_register (r : OpenFiles) (x y : UInt32) : (r.register x).registered.get? y =
    if y = x then some r.entries.length else r.registered.get? y :=
  Table.get?_insert ..

theorem get?_unregister (r : OpenFiles) (x y : UInt32) : (r.unregister x).registered.get? y =
    if y = x then none else r.registered.get? y :=
  Table.get?_erase ..

theorem get?_plain (r : OpenFiles) (x : UInt32) :
    r.plain.get? x = (r.registered.get? x).map fun p => (r.file p).toOpenEntry :=
  Table.get?_map ..

end File

/-- Every entry that there was is still there, in its sector. -/
structure Extends (r r' : OpenFiles) : Prop where
  length_le : r.entries.length ≤ r'.entries.length
  sector : ∀ p < r.entries.length, (r'.file p).sector = (r.file p).sector

namespace Extends

theorem refl (r : OpenFiles) : r.Extends r := ⟨Nat.le_refl _, fun _ _ => rfl⟩

theorem trans (h : r.Extends r') (h' : r'.Extends r'') : r.Extends r'' where
  length_le := Nat.le_trans h.length_le h'.length_le
  sector p hp := (h'.sector p (Nat.lt_of_lt_of_le hp h.length_le)).trans (h.sector p hp)

theorem change (r : OpenFiles) (place : Nat) (e : OpenEntry) : r.Extends (r.change place e) where
  length_le := Nat.le_of_eq (List.length_set ..).symm
  sector p hp := by
    by_cases heq : p = place
    · subst heq
      rw [file_change_self hp]
    · rw [file_change_of_ne heq]

theorem register (r : OpenFiles) (x : UInt32) : r.Extends (r.register x) where
  length_le := by
    rw [OpenFiles.register, List.length_append]
    omega
  sector p hp := by rw [file_register_of_lt hp]

theorem unregister (r : OpenFiles) (x : UInt32) : r.Extends (r.unregister x) :=
  ⟨Nat.le_refl _, fun _ _ => rfl⟩

theorem plain_eq (h : r.Extends r') {k : FileHandle} (hk : k.place < r.entries.length) :
    k.plain r' = k.plain r := congrArg (Handle.mk · k.denies) (h.sector k.place hk)

end Extends

/-- How many handles hold the entry at a place. -/
def holders (hs : List FileHandle) (p : Nat) : Nat := hs.countP fun h => h.place = p

section Holders

variable {hs hs' : List FileHandle} {h : FileHandle}

theorem holders_cons (h : FileHandle) (hs : List FileHandle) (p : Nat) :
    holders (h :: hs) p = holders hs p + if h.place = p then 1 else 0 := by
  simp only [holders, List.countP_cons, decide_eq_true_eq]

theorem holders_perm (hperm : hs.Perm hs') : holders hs p = holders hs' p := hperm.countP_eq _

theorem holders_ne_zero (hmem : h ∈ hs) : holders hs h.place ≠ 0 := by
  have := List.countP_pos_iff (p := fun k : FileHandle => decide (k.place = h.place)).2
    ⟨h, hmem, decide_eq_true rfl⟩
  exact Nat.ne_of_gt this

theorem holders_cons_of_ne (hp : p ≠ h.place) : holders (h :: hs) p = holders hs p := by
  rw [holders_cons, if_neg (Ne.symm hp), Nat.add_zero]

end Holders

/-- What is registered is in order and counted, and what is held is registered. -/
structure Shares (r : OpenFiles) (hs : List FileHandle) : Prop where
  sorted : r.registered.Sorted
  registered : ∀ x p, r.registered.get? x = some p →
    p < r.entries.length ∧ (r.file p).sector = x ∧ (r.file p).openers = holders hs p
  held : ∀ p, holders hs p ≠ 0 → r.registered.get? (r.file p).sector = some p

namespace Shares

variable {hs hs' : List FileHandle} {h : FileHandle}

theorem congr (hr : r.Shares hs) (hsame : ∀ p, holders hs' p = holders hs p) : r.Shares hs' where
  sorted := hr.sorted
  registered x p hp := by
    rw [hsame p]
    exact hr.registered x p hp
  held p hp := hr.held p (hsame p ▸ hp)

theorem perm (hr : r.Shares hs) (hperm : hs.Perm hs') : r.Shares hs' :=
  hr.congr fun _ => (holders_perm hperm).symm

/-- Whether a handle denies writing is nothing to the count. -/
theorem replace {denies : Bool} (hr : r.Shares (h :: hs)) :
    r.Shares ({ h with denies } :: hs) := hr.congr fun p => by simp only [holders_cons]

theorem registered_of_mem (hr : r.Shares hs) (hmem : h ∈ hs) :
    r.registered.get? (r.file h.place).sector = some h.place := hr.held _ (holders_ne_zero hmem)

theorem openers_of_mem (hr : r.Shares hs) (hmem : h ∈ hs) :
    (r.file h.place).openers = holders hs h.place :=
  (hr.registered _ _ (hr.registered_of_mem hmem)).2.2

theorem lt_of_mem (hr : r.Shares hs) (hmem : h ∈ hs) : h.place < r.entries.length :=
  (hr.registered _ _ (hr.registered_of_mem hmem)).1

/-- Of one sector there is one entry that is held. -/
theorem place_eq_iff (hr : r.Shares hs) {k : FileHandle} (hh : h ∈ hs) (hk : k ∈ hs) :
    h.place = k.place ↔ (h.plain r).sector = (k.plain r).sector := by
  constructor
  · intro heq
    exact congrArg (fun p => (r.file p).sector) heq
  · intro heq
    refine Option.some.inj ((hr.registered_of_mem hh).symm.trans ?_)
    exact (congrArg r.registered.get? heq).trans (hr.registered_of_mem hk)

theorem empty (r : OpenFiles) : Shares { r with registered := Table.empty } [] where
  sorted := Table.sorted_empty
  registered x p hp := by cases hp
  held p hp := absurd rfl hp

/-- A registered entry is changed, and the handles on it with it. -/
theorem change (hr : r.Shares hs) (hp : r.registered.get? x = some p) (hs' : List FileHandle)
    (hopeners : e.openers = holders hs' p) (hother : ∀ q, q ≠ p → holders hs' q = holders hs q) :
    (r.change p e).Shares hs' where
  sorted := hr.sorted
  registered y q hq := by
    obtain ⟨hlt, hsector, hcount⟩ := hr.registered y q hq
    refine ⟨Nat.lt_of_lt_of_le hlt (Extends.change r p e).length_le,
      ((Extends.change r p e).sector q hlt).trans hsector, ?_⟩
    by_cases heq : q = p
    · rw [heq, file_change_self (heq ▸ hlt)]
      exact hopeners
    · rw [file_change_of_ne heq, hother q heq]
      exact hcount
  held q hq := by
    by_cases heq : q = p
    · obtain ⟨hlt, hsector, -⟩ := hr.registered x p hp
      rw [heq, file_change_self hlt]
      exact hsector ▸ hp
    · rw [file_change_of_ne heq]
      exact hr.held q (hother q heq ▸ hq)

/-- A first handle on a sector that nothing is registered for. -/
theorem register (hr : r.Shares hs) (hx : r.registered.get? x = none) :
    (r.register x).Shares (⟨r.entries.length, false⟩ :: hs) := by
  have hnone : holders hs r.entries.length = 0 := by
    by_contra hheld
    exact Nat.lt_irrefl _ (hr.registered _ _ (hr.held _ hheld)).1
  refine ⟨hr.sorted.insert _ _, fun y q hq => ?_, fun q hq => ?_⟩
  · rw [get?_register] at hq
    split at hq
    · rename_i heq
      obtain rfl := Option.some.inj hq
      rw [file_register_self, holders_cons, if_pos rfl, hnone]
      refine ⟨?_, heq.symm, rfl⟩
      simp [OpenFiles.register]
    · obtain ⟨hlt, hsector, hcount⟩ := hr.registered y q hq
      rw [file_register_of_lt hlt, holders_cons_of_ne (Nat.ne_of_lt hlt)]
      exact ⟨Nat.lt_of_lt_of_le hlt (Extends.register r x).length_le, hsector, hcount⟩
  · rw [get?_register]
    by_cases hself : q = r.entries.length
    · rw [hself, file_register_self, if_pos rfl]
    · rw [holders_cons_of_ne hself] at hq
      have hheld := hr.held q hq
      rw [file_register_of_lt (hr.registered _ _ hheld).1]
      refine (if_neg fun heq => ?_).trans hheld
      rw [heq, hx] at hheld
      cases hheld

/-- An entry that nobody holds leaves the registry. -/
theorem unregister (hr : r.Shares hs) (hp : r.registered.get? x = some p)
    (hnone : holders hs p = 0) : (r.unregister x).Shares hs where
  sorted := hr.sorted.erase x
  registered y q hq := by
    rw [get?_unregister] at hq
    split at hq
    · cases hq
    · exact hr.registered y q hq
  held q hq := by
    have hheld := hr.held q hq
    rw [get?_unregister]
    refine (if_neg fun heq => hq ?_).trans hheld
    have hsame : r.registered.get? x = some q := heq ▸ hheld
    rw [← Option.some.inj (hp.symm.trans hsame)]
    exact hnone

section Plain

/-- What a handle holds is what the other kind of handle finds. -/
theorem entry_plain (hr : r.Shares hs) (hmem : h ∈ hs) :
    r.plain.entry (h.plain r).sector = (r.file h.place).toOpenEntry := by
  have hregistered : r.registered.get? (h.plain r).sector = some h.place :=
    hr.registered_of_mem hmem
  rw [Registry.entry, get?_plain, hregistered]
  rfl

theorem get?_plain_change_of_ne (hr : r.Shares hs) (hp : r.registered.get? x = some p)
    {y : UInt32} (hy : y ≠ x) : (r.change p e).plain.get? y = r.plain.get? y := by
  rw [get?_plain, get?_plain]
  change Option.map _ (r.registered.get? y) = _
  cases hq : r.registered.get? y with
  | none => rfl
  | some q =>
    have hne : q ≠ p := by
      rintro rfl
      exact hy ((hr.registered y q hq).2.1.symm.trans (hr.registered x q hp).2.1)
    exact congrArg (fun f : OpenFile => some f.toOpenEntry) (file_change_of_ne hne)

theorem plain_change (hr : r.Shares hs) (hp : r.registered.get? x = some p) :
    (r.change p e).plain = Table.insert r.plain x e := by
  refine Table.Sorted.ext hr.sorted.map (hr.sorted.map.insert x e) fun y => ?_
  rw [Table.get?_insert]
  split
  · rename_i heq
    rw [heq, get?_plain]
    change Option.map _ (r.registered.get? x) = _
    rw [hp, Option.map_some, file_change_self (hr.registered x p hp).1]
  · rename_i hne
    exact hr.get?_plain_change_of_ne hp hne

theorem plain_register (hr : r.Shares hs) :
    (r.register x).plain = Table.insert r.plain x .fresh := by
  rw [plain, OpenFiles.register, hr.sorted.map_insert]
  change Table.insert (Table.map _ r.registered) x
    ((r.register x).file r.entries.length).toOpenEntry = _
  rw [file_register_self]
  refine congrArg (Table.insert · x OpenEntry.fresh) (Table.map_congr fun e he => ?_)
  have hlt := (hr.registered e.1 e.2 (hr.sorted.get?_of_mem he)).1
  exact congrArg OpenFile.toOpenEntry (file_register_of_lt hlt)

/-- The last change to an entry is not seen. -/
theorem plain_unregister_change (hr : r.Shares hs) (hp : r.registered.get? x = some p) :
    ((r.change p e).unregister x).plain = Table.erase r.plain x := by
  have herase : ((r.change p e).unregister x).plain = Table.erase (r.change p e).plain x :=
    Table.map_erase _ _
  rw [herase]
  refine Table.Sorted.ext (hr.sorted.map.erase x) (hr.sorted.map.erase x) fun y => ?_
  rw [Table.get?_erase, Table.get?_erase]
  split
  · rfl
  · rename_i hne
    exact hr.get?_plain_change_of_ne hp hne

end Plain

end Shares

end OpenFiles

end SectorVolume
