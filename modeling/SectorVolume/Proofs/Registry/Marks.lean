import SectorVolume.Proofs.Registry.Outcomes

/-!
Who looks at the mark of removal. Apart from setting it and asking for it, only closing the last
handle on a file does: every other operation does the same with the mark as without it, and leaves
registries behind that differ in nothing else.
-/

namespace SectorVolume

namespace Table

variable {κ α : Type} (f : κ → α → α) (t : Table κ α) (k : κ)

/-- Changes every value, given its key. -/
def mapValues : Table κ α := ⟨t.entries.map fun e => (e.1, f e.1 e.2)⟩

@[simp] theorem size_mapValues : (t.mapValues f).size = t.size := List.length_map _

variable [DecidableEq κ]

theorem get?_mapValues : (t.mapValues f).get? k = (t.get? k).map (f k) := by
  simp only [get?, mapValues]
  induction t.entries with
  | nil => rfl
  | cons e rest ih =>
    by_cases he : e.1 = k
    · simp [he]
    · simpa [he] using ih

theorem erase_mapValues : (t.mapValues f).erase k = (t.erase k).mapValues f := by
  simp only [erase, mapValues, List.filter_map]
  rfl

theorem insert_mapValues [LT κ] [DecidableLT κ] (a : α) :
    (t.mapValues f).insert k (f k a) = (t.insert k a).mapValues f := by
  simp only [insert, mapValues, mk.injEq]
  induction t.entries with
  | nil => rfl
  | cons e rest ih =>
    simp only [List.map_cons, insertEntry]
    split
    · rfl
    · split
      · rfl
      · rw [List.map_cons, ih]

end Table

namespace OpenEntry

/-- The entry in sector `y` without the mark, if that is sector `x`. -/
def unmark (x y : UInt32) (e : OpenEntry) : OpenEntry :=
  if y = x then { e with removed := false } else e

variable (x y : UInt32) (e : OpenEntry)

theorem unmark_eq :
    e.unmark x y = ⟨e.openers, if y = x then false else e.removed, e.denials⟩ := by
  rw [unmark]
  split <;> rfl

@[simp] theorem openers_unmark : (e.unmark x y).openers = e.openers := by rw [unmark_eq]

@[simp] theorem denials_unmark : (e.unmark x y).denials = e.denials := by rw [unmark_eq]

variable {x y}

theorem unmark_of_ne (h : x ≠ y) : e.unmark x y = e := if_neg h.symm

theorem unmark_of_not_removed {e : OpenEntry} (h : e.removed = false) : e.unmark x y = e := by
  rw [unmark, ← h]
  exact ite_id _

end OpenEntry

namespace Registry

/-- Takes the mark from the file in sector `x`. -/
def unmark (x : UInt32) (g : Registry) : Registry := Table.mapValues (OpenEntry.unmark x) g

theorem entry_unmark (x y : UInt32) (g : Registry) :
    (g.unmark x).entry y = (g.entry y).unmark x y := by
  rw [entry, entry, unmark, Table.get?_mapValues]
  cases g.get? y with
  | none => exact (OpenEntry.unmark_of_not_removed rfl).symm
  | some e => rfl

end Registry

namespace VolumeM

variable {α β : Type} {x y : UInt32} {g : Registry}

/-- What the first does from the registry `g`, the second does without the mark. -/
def Alike (x : UInt32) (v w : VolumeM α) (g : Registry) : Prop :=
  ∀ (e e' : Engine RamDisk) a g', Engine.run (v.run g) e = .ok (a, g') e' →
    Engine.run (w.run (g.unmark x)) e = .ok (a, g'.unmark x) e'

theorem alike_pure (a : α) : Alike x (pure a) (pure a) g := by
  intro e e' b g' hrun
  cases hrun
  rfl

theorem Alike.bind_leaves {v w : VolumeM α} {k l : α → VolumeM β} {P : α → Registry → Prop}
    (hv : Alike x v w g) (hP : Leaves v g P) (hk : ∀ a g', P a g' → Alike x (k a) (l a) g') :
    Alike x (v >>= k) (w >>= l) g := by
  intro e e' b g' hrun
  rw [StateT.run_bind, Engine.run_bind] at hrun ⊢
  obtain ⟨⟨a, g₁⟩, e₁, hfirst, hrest⟩ := exists_of_bind_ok hrun
  exact (bind_of_ok (hv _ _ _ _ hfirst)).trans (hk a g₁ (hP _ _ _ _ hfirst) _ _ _ _ hrest)

theorem Alike.bind {v w : VolumeM α} {k l : α → VolumeM β} (hv : Alike x v w g)
    (hk : ∀ a g', Alike x (k a) (l a) g') : Alike x (v >>= k) (w >>= l) g :=
  hv.bind_leaves (P := fun _ _ => True) (fun _ _ _ _ _ => trivial) fun a g' _ => hk a g'

theorem Alike.get_bind {k l : Registry → VolumeM α} (hk : Alike x (k g) (l (g.unmark x)) g) :
    Alike x (get >>= k) (get >>= l) g := hk

theorem Alike.entry_bind {k l : OpenEntry → VolumeM α}
    (hk : Alike x (k (g.entry y)) (l ((g.entry y).unmark x y)) g) :
    Alike x (entry y >>= k) (entry y >>= l) g := by
  rw [← Registry.entry_unmark] at hk
  exact hk

theorem alike_lift (p : Script α) : Alike x (liftM p) (liftM p) g := by
  intro e e' b g' hrun
  have hsplit : ∀ g : Registry, (liftM p : VolumeM α).run g = p >>= fun a => pure (a, g) :=
    fun _ => rfl
  rw [hsplit, Engine.run_bind] at hrun ⊢
  obtain ⟨a, e₁, hfirst, hrest⟩ := exists_of_bind_ok hrun
  cases hrest
  exact bind_of_ok hfirst

theorem alike_ofExcept (r : Except Fault α) : Alike x (ofExcept r) (ofExcept r) g :=
  alike_lift (Script.ofExcept r)

/-- What follows a fault does not matter. -/
theorem alike_of_fault (f : Fault) (k l : α → VolumeM β) :
    Alike x (ofExcept (.error f) >>= k) (ofExcept (.error f) >>= l) g :=
  (alike_ofExcept _).bind_leaves (leaves_ofExcept (Q := fun _ _ => False) (by simp))
    fun _ _ => False.elim

theorem alike_modify {f f' : Registry → Registry} (h : f' (g.unmark x) = (f g).unmark x) :
    Alike x (modify f) (modify f') g := by
  intro e e' b g' hrun
  cases hrun
  rw [← h]
  rfl

theorem alike_setEntry {e e' : OpenEntry} (h : e' = e.unmark x y) :
    Alike x (setEntry y e) (setEntry y e') g :=
  alike_modify (by rw [h]; exact Table.insert_mapValues ..)

theorem alike_erase (y : UInt32) :
    Alike x (modify fun r : Registry => r.erase y) (modify fun r : Registry => r.erase y) g :=
  alike_modify (Table.erase_mapValues ..)

end VolumeM

open VolumeM

variable {x : UInt32} {g : Registry} {h : Handle} {hs : List Handle} {removed : UInt32 → Bool}

theorem alike_open (y : UInt32) : Alike x (Volume.open y) (Volume.open y) g := by
  have hget : (g.unmark x).get? y = (g.get? y).map (OpenEntry.unmark x y) :=
    Table.get?_mapValues ..
  refine Alike.get_bind ?_
  rw [hget]
  cases g.get? y with
  | none =>
    refine (alike_lift _).bind fun _ g' => ?_
    exact (alike_setEntry (OpenEntry.unmark_of_not_removed rfl).symm).bind fun _ _ => alike_pure _
  | some e =>
    refine (alike_setEntry ?_).bind fun _ _ => alike_pure _
    rw [OpenEntry.unmark_eq, OpenEntry.unmark_eq]

theorem alike_reopen : Alike x h.reopen h.reopen g := by
  refine Alike.entry_bind ((alike_setEntry ?_).bind fun _ _ => alike_pure _)
  rw [OpenEntry.unmark_eq, OpenEntry.unmark_eq]

theorem alike_deny : Alike x h.deny h.deny g := by
  cases hdenies : h.denies with
  | true =>
    rw [Handle.deny, if_pos hdenies]
    exact alike_of_fault _ _ _
  | false =>
    rw [Handle.deny, if_neg (by simp [hdenies])]
    refine Alike.entry_bind ?_
    rw [OpenEntry.unmark_eq]
    dsimp only
    split
    · exact alike_of_fault _ _ _
    · refine (alike_setEntry ?_).bind fun _ _ => alike_pure _
      rw [OpenEntry.unmark_eq]

theorem alike_allow : Alike x h.allow h.allow g := by
  cases hdenies : h.denies with
  | false =>
    rw [Handle.allow, if_pos (by simp [hdenies])]
    exact alike_of_fault _ _ _
  | true =>
    rw [Handle.allow, if_neg (by simp [hdenies])]
    refine Alike.entry_bind ?_
    rw [OpenEntry.unmark_eq]
    refine (alike_ofExcept _).bind fun _ _ => (alike_setEntry ?_).bind fun _ _ => alike_pure _
    rw [OpenEntry.unmark_eq]

/-- A question that is not about the mark. -/
theorem alike_query {β : Type} (y : UInt32) {f : OpenEntry → β}
    (hf : ∀ e : OpenEntry, f (e.unmark x y) = f e) :
    Alike x (entry y >>= fun e => pure (f e)) (entry y >>= fun e => pure (f e)) g := by
  refine Alike.entry_bind ?_
  rw [hf]
  exact alike_pure _

theorem alike_remove (hx : x ≠ h.sector) : Alike x h.remove h.remove g := by
  refine Alike.entry_bind (alike_setEntry ?_)
  rw [OpenEntry.unmark_of_ne _ hx, OpenEntry.unmark_of_ne _ hx]

theorem alike_isRemoved (hx : x ≠ h.sector) : Alike x h.isRemoved h.isRemoved g :=
  alike_query h.sector fun e => by rw [OpenEntry.unmark_of_ne e hx]

theorem alike_writeAt (offset : Nat) (data : Array UInt8) :
    Alike x (h.writeAt offset data) (h.writeAt offset data) g := by
  refine (alike_query h.sector fun e => by rw [OpenEntry.denials_unmark]).bind fun denied g' => ?_
  split
  · exact alike_pure _
  · split
    · exact alike_pure _
    · refine (alike_lift _).bind fun grown g' => ?_
      cases grown with
      | error refusal => exact alike_pure _
      | ok n => exact alike_lift _

/-- A handle goes that denies nothing. The last one on a file looks whether the file is marked. -/
theorem alike_leave (hc : g.Counts (⟨h.sector, false⟩ :: hs) removed)
    (hx : x = h.sector → openers hs x ≠ 0) : Alike x h.leave h.leave g := by
  have hopeners : (g.entry h.sector).openers = openers hs h.sector + 1 := by
    rw [hc.entry_of_ne_zero (openers_ne_zero List.mem_cons_self), openers_cons, if_pos rfl]
  refine Alike.entry_bind ?_
  rw [OpenEntry.openers_unmark, hopeners]
  refine (alike_ofExcept (checkedPred (openers hs h.sector + 1))).bind_leaves
    (P := fun n _ => n = openers hs h.sector)
    (leaves_ofExcept fun n hn => (Except.ok.inj hn).symm) ?_
  rintro _ g' rfl
  by_cases hlast : openers hs h.sector = 0
  · have hne : x ≠ h.sector := by
      rintro rfl
      exact hx rfl hlast
    have hzero : ¬0 < openers hs h.sector := Nat.not_lt.2 (Nat.le_of_eq hlast)
    rw [if_neg hzero, if_neg hzero, OpenEntry.unmark_of_ne _ hne]
    refine (alike_erase _).bind fun _ g' => ?_
    split
    · exact alike_lift _
    · exact alike_pure _
  · have hpos := Nat.pos_of_ne_zero hlast
    rw [if_pos hpos, if_pos hpos]
    refine alike_setEntry ?_
    rw [OpenEntry.unmark_eq, OpenEntry.unmark_eq]

theorem alike_close (hc : g.Counts (h :: hs) removed) (hx : x = h.sector → openers hs x ≠ 0) :
    Alike x h.close h.close g := by
  rw [Handle.close_eq]
  cases hdenies : h.denies with
  | false =>
    have hsame : h = ⟨h.sector, false⟩ := by rw [← hdenies]
    rw [hsame] at hc
    exact alike_leave hc hx
  | true =>
    refine alike_allow.bind_leaves (leaves_allow hc) ?_
    rintro _ g' ⟨rfl, hg'⟩
    exact alike_leave hg' hx

end SectorVolume
