import SectorVolume.Proofs.Reference.Model
import SectorVolume.Proofs.Registry.Entries
import SectorVolume.Proofs.Volume.Gives

/-!
The registry counts the handles that there are. An entry has the number of handles on its file and
of those that deny writing; a file without handles has no entry. Opening, denying and closing keep
this, and no handle can be counted out that was not counted in.
-/

namespace SectorVolume

section Handles

variable (h : Handle) (hs : List Handle) (x : UInt32)

theorem openers_cons : openers (h :: hs) x = openers hs x + if h.sector = x then 1 else 0 := by
  simp only [openers, List.countP_cons, decide_eq_true_eq]

theorem denials_cons : denials (h :: hs) x =
    denials hs x + if h.sector = x ∧ h.denies = true then 1 else 0 := by
  simp only [denials, List.countP_cons, decide_eq_true_eq]

theorem denials_le_openers : denials hs x ≤ openers hs x := by
  apply List.countP_mono_left
  intro h _ hdenies
  simp only [decide_eq_true_eq] at hdenies ⊢
  exact hdenies.1

variable {hs x}

theorem openers_perm {hs' : List Handle} (hperm : hs.Perm hs') : openers hs x = openers hs' x :=
  hperm.countP_eq _

theorem denials_perm {hs' : List Handle} (hperm : hs.Perm hs') : denials hs x = denials hs' x :=
  hperm.countP_eq _

theorem openers_ne_zero {h : Handle} (hmem : h ∈ hs) : openers hs h.sector ≠ 0 := by
  have := List.countP_pos_iff (p := fun k : Handle => decide (k.sector = h.sector)).2
    ⟨h, hmem, decide_eq_true rfl⟩
  exact Nat.ne_of_gt this

end Handles

/-- The registry has an entry for every file with handles, with their numbers and the mark of
removal. -/
def Registry.Counts (g : Registry) (hs : List Handle) (removed : UInt32 → Bool) : Prop :=
  ∀ x, g.get? x = if openers hs x = 0 then none else some ⟨openers hs x, removed x, denials hs x⟩

namespace Registry.Counts

variable {g : Registry} {hs hs' : List Handle} {removed removed' : UInt32 → Bool} {x : UInt32}

theorem empty (removed : UInt32 → Bool) : Counts Table.empty [] removed := fun _ => rfl

theorem perm (hc : g.Counts hs removed) (hperm : hs.Perm hs') : g.Counts hs' removed := by
  intro x
  rw [hc x, openers_perm hperm, denials_perm hperm]

theorem entry_of_ne_zero (hc : g.Counts hs removed) (hx : openers hs x ≠ 0) :
    g.entry x = ⟨openers hs x, removed x, denials hs x⟩ := by
  rw [Registry.entry, hc x, if_neg hx]
  rfl

theorem denials_entry (hc : g.Counts hs removed) (x : UInt32) :
    (g.entry x).denials = denials hs x := by
  by_cases hx : openers hs x = 0
  · have hle := denials_le_openers hs x
    rw [Registry.entry, hc x, if_pos hx]
    change 0 = _
    omega
  · rw [hc.entry_of_ne_zero hx]

theorem insert (hc : g.Counts hs removed) (hx : openers hs' x ≠ 0)
    (hother : ∀ y, y ≠ x → openers hs' y = openers hs y ∧ denials hs' y = denials hs y ∧
      removed' y = removed y) :
    Counts (Table.insert g x ⟨openers hs' x, removed' x, denials hs' x⟩) hs' removed' := by
  intro y
  rw [Table.get?_insert]
  by_cases hy : y = x
  · rw [if_pos hy, hy, if_neg hx]
  · obtain ⟨hopeners, hdenials, hremoved⟩ := hother y hy
    rw [if_neg hy, hc y, hopeners, hdenials, hremoved]

theorem erase (hc : g.Counts hs removed) (hx : openers hs' x = 0)
    (hother : ∀ y, y ≠ x → openers hs' y = openers hs y ∧ denials hs' y = denials hs y ∧
      removed' y = removed y) : Counts (Table.erase g x) hs' removed' := by
  intro y
  rw [Table.get?_erase]
  by_cases hy : y = x
  · rw [if_pos hy, hy, if_pos hx]
  · obtain ⟨hopeners, hdenials, hremoved⟩ := hother y hy
    rw [if_neg hy, hc y, hopeners, hdenials, hremoved]

/-- The mark of a file without handles is not in the registry. -/
theorem congr_removed (hc : g.Counts hs removed)
    (hsame : ∀ y, openers hs y ≠ 0 → removed' y = removed y) : g.Counts hs removed' := by
  intro y
  rw [hc y]
  by_cases hy : openers hs y = 0
  · rw [if_pos hy, if_pos hy]
  · rw [if_neg hy, if_neg hy, hsame y hy]

end Registry.Counts

theorem counts_cons_of_ne {h : Handle} {y : UInt32} (hs : List Handle) (hy : y ≠ h.sector) :
    openers (h :: hs) y = openers hs y ∧ denials (h :: hs) y = denials hs y := by
  have hne : h.sector ≠ y := Ne.symm hy
  rw [openers_cons, denials_cons, if_neg hne, if_neg fun hboth => hne hboth.1]
  exact ⟨rfl, rfl⟩

/-- What closing a handle does once the handle denies nothing. -/
def Handle.leave (h : Handle) : VolumeM Unit := do
  let e ← VolumeM.entry h.sector
  let openers ← VolumeM.ofExcept (checkedPred e.openers)
  if 0 < openers then
    VolumeM.setEntry h.sector { e with openers }
  else
    modify fun r => r.erase h.sector
    if e.removed then Handle.reclaim h.sector

theorem Handle.close_eq (h : Handle) :
    h.close = if h.denies then h.allow >>= fun _ => h.leave else h.leave := rfl

section Operations

open VolumeM

variable {g : Registry} {d d' : Medium} {h : Handle} {hs : List Handle} {removed : UInt32 → Bool}

/-- One more handle that denies nothing. -/
theorem Registry.Counts.cons (hc : g.Counts hs removed) (x : UInt32) :
    Registry.Counts (Table.insert g x ⟨openers hs x + 1, removed x, denials hs x⟩)
      (⟨x, false⟩ :: hs) removed := by
  have hopeners : openers (⟨x, false⟩ :: hs) x = openers hs x + 1 := by
    rw [openers_cons, if_pos rfl]
  have hdenials : denials (⟨x, false⟩ :: hs) x = denials hs x := by
    rw [denials_cons, if_neg fun hboth => Bool.false_ne_true hboth.2]
    rfl
  rw [← hopeners, ← hdenials]
  apply hc.insert
  · omega
  · intro y hy
    obtain ⟨ho, hd⟩ := counts_cons_of_ne (h := ⟨x, false⟩) hs hy
    exact ⟨ho, hd, rfl⟩

theorem gives_open {n : Inode} {x : UInt32} (hn : d.HasInode x n) (hc : g.Counts hs removed)
    (hfresh : openers hs x = 0 → removed x = false) :
    ∃ g', Gives (Volume.open x) g d ⟨x, false⟩ g' d ∧ g'.Counts (⟨x, false⟩ :: hs) removed := by
  refine ⟨_, ?_, hc.cons x⟩
  have hget : Gives (get : VolumeM Registry) g d g g d := rfl
  refine hget.bind ?_
  have hx := hc x
  by_cases hnone : openers hs x = 0
  · have hle := denials_le_openers hs x
    have hfresh' := hfresh hnone
    rw [if_pos hnone] at hx
    have hentry : (⟨openers hs x + 1, removed x, denials hs x⟩ : OpenEntry) = .fresh := by
      rw [hnone, hfresh', show denials hs x = 0 by omega]
      rfl
    rw [hx, hentry]
    refine (gives_lift hn.eval_readInode g).bind ?_
    exact (gives_setEntry x .fresh g d).bind (gives_pure _ _ _)
  · rw [if_neg hnone] at hx
    rw [hx]
    exact (gives_setEntry x _ g d).bind (gives_pure _ _ _)

theorem gives_openCount (hc : g.Counts hs removed) (hmem : h ∈ hs) :
    Gives h.openCount g d (openers hs h.sector) g d := by
  have hentry := gives_entry h.sector g d
  rw [hc.entry_of_ne_zero (openers_ne_zero hmem)] at hentry
  exact hentry.bind_pure _

theorem gives_isRemoved (hc : g.Counts hs removed) (hmem : h ∈ hs) :
    Gives h.isRemoved g d (removed h.sector) g d := by
  have hentry := gives_entry h.sector g d
  rw [hc.entry_of_ne_zero (openers_ne_zero hmem)] at hentry
  exact hentry.bind_pure _

theorem gives_isDenied (hc : g.Counts hs removed) :
    Gives h.isDenied g d (decide (0 < denials hs h.sector)) g d := by
  rw [← hc.denials_entry]
  exact Handle.gives_isDenied h g d

theorem gives_reopen (hc : g.Counts hs removed) (hmem : h ∈ hs) :
    ∃ g', Gives h.reopen g d ⟨h.sector, false⟩ g' d ∧
      g'.Counts (⟨h.sector, false⟩ :: hs) removed := by
  have hentry := gives_entry h.sector g d
  rw [hc.entry_of_ne_zero (openers_ne_zero hmem)] at hentry
  exact ⟨_, hentry.bind ((gives_setEntry _ _ _ _).bind_pure _), hc.cons h.sector⟩

theorem gives_remove (hc : g.Counts hs removed) (hmem : h ∈ hs) :
    ∃ g', Gives h.remove g d () g' d ∧
      g'.Counts hs fun x => if x = h.sector then true else removed x := by
  have hentry := gives_entry h.sector g d
  rw [hc.entry_of_ne_zero (openers_ne_zero hmem)] at hentry
  have hcounts : Registry.Counts (Table.insert g h.sector ⟨openers hs h.sector,
      if h.sector = h.sector then true else removed h.sector, denials hs h.sector⟩) hs
      fun x => if x = h.sector then true else removed x :=
    hc.insert (openers_ne_zero hmem) fun y hy => ⟨rfl, rfl, if_neg hy⟩
  rw [if_pos rfl] at hcounts
  exact ⟨_, hentry.bind (gives_setEntry _ _ _ _), hcounts⟩

/-- A handle that denies, or that does so no more, in place of the same handle. -/
theorem Registry.Counts.replace {b : Bool} (hc : g.Counts (h :: hs) removed) :
    Registry.Counts (Table.insert g h.sector ⟨openers (h :: hs) h.sector, removed h.sector,
      denials hs h.sector + if b = true then 1 else 0⟩) ({ h with denies := b } :: hs)
        removed := by
  have hopeners :
      openers ({ h with denies := b } :: hs) h.sector = openers (h :: hs) h.sector := by
    rw [openers_cons, openers_cons]
  have hdenials : denials ({ h with denies := b } :: hs) h.sector =
      denials hs h.sector + if b = true then 1 else 0 := by
    rw [denials_cons]
    simp only [true_and]
  rw [← hopeners, ← hdenials]
  apply hc.insert
  · rw [openers_cons, if_pos rfl]
    omega
  · intro y hy
    obtain ⟨ho, hd⟩ := counts_cons_of_ne (h := h) hs hy
    obtain ⟨ho', hd'⟩ := counts_cons_of_ne (h := { h with denies := b }) hs hy
    exact ⟨ho'.trans ho.symm, hd'.trans hd.symm, rfl⟩

theorem fails_deny (hdenies : h.denies = true) : Fails h.deny g d .alreadyDenied := by
  rw [Handle.deny, if_pos hdenies]
  exact (fails_ofExcept _ g d).bind _

/-- Every handle denies at most once, so there is room for one that does not deny yet. -/
theorem gives_deny (hc : g.Counts (h :: hs) removed) (hdenies : h.denies = false) :
    ∃ g', Gives h.deny g d { h with denies := true } g' d ∧
      g'.Counts ({ h with denies := true } :: hs) removed := by
  refine ⟨_, ?_, hc.replace (b := true)⟩
  have hle := denials_le_openers hs h.sector
  have hopeners : openers (h :: hs) h.sector = openers hs h.sector + 1 := by
    rw [openers_cons, if_pos rfl]
  have hdenials : denials (h :: hs) h.sector = denials hs h.sector := by
    rw [denials_cons, if_neg (by simp [hdenies])]
    rfl
  have hentry := gives_entry h.sector g d
  rw [hc.entry_of_ne_zero (openers_ne_zero List.mem_cons_self), hdenials] at hentry
  rw [Handle.deny, if_neg (by simp [hdenies])]
  refine hentry.bind ?_
  rw [if_neg (by rw [hopeners]; simp only; omega)]
  exact (gives_setEntry _ _ _ _).bind_pure _

theorem fails_allow (hdenies : h.denies = false) : Fails h.allow g d .notDenied := by
  rw [Handle.allow, if_pos (by simp [hdenies])]
  exact (fails_ofExcept _ g d).bind _

/-- A handle that denies was counted, so there is a denial to take back. -/
theorem gives_allow (hc : g.Counts (h :: hs) removed) (hdenies : h.denies = true) :
    ∃ g', Gives h.allow g d { h with denies := false } g' d ∧
      g'.Counts ({ h with denies := false } :: hs) removed := by
  refine ⟨_, ?_, hc.replace (b := false)⟩
  have hdenials : denials (h :: hs) h.sector = denials hs h.sector + 1 := by
    rw [denials_cons, if_pos ⟨rfl, hdenies⟩]
  have hentry := gives_entry h.sector g d
  rw [hc.entry_of_ne_zero (openers_ne_zero List.mem_cons_self), hdenials] at hentry
  rw [Handle.allow, if_neg (by simp [hdenies])]
  refine hentry.bind ((gives_ofExcept (denials hs h.sector) g d).bind ?_)
  exact (gives_setEntry _ _ _ _).bind_pure _

theorem gives_close_of_leave (hc : g.Counts (h :: hs) removed)
    (hleave : ∀ g, g.Counts (⟨h.sector, false⟩ :: hs) removed →
      ∃ g', Gives h.leave g d () g' d' ∧ g'.Counts hs removed) :
    ∃ g', Gives h.close g d () g' d' ∧ g'.Counts hs removed := by
  rw [Handle.close_eq]
  cases hdenies : h.denies with
  | false =>
    have hsame : (⟨h.sector, false⟩ : Handle) = h := by rw [← hdenies]
    rw [← hsame] at hc
    exact hleave g hc
  | true =>
    obtain ⟨g₁, hgives, hc₁⟩ := gives_allow (d := d) hc hdenies
    obtain ⟨g', hrest, hc'⟩ := hleave g₁ hc₁
    exact ⟨g', hgives.bind hrest, hc'⟩

/-- Of several handles one is closed. -/
theorem gives_close_of_open (hc : g.Counts (h :: hs) removed) (hopen : openers hs h.sector ≠ 0) :
    ∃ g', Gives h.close g d () g' d ∧ g'.Counts hs removed := by
  apply gives_close_of_leave hc
  intro g hc
  have hentry := gives_entry h.sector g d
  rw [hc.entry_of_ne_zero (openers_ne_zero List.mem_cons_self)] at hentry
  have hopeners : openers (⟨h.sector, false⟩ :: hs) h.sector = openers hs h.sector + 1 := by
    rw [openers_cons, if_pos rfl]
  have hdenials : denials (⟨h.sector, false⟩ :: hs) h.sector = denials hs h.sector := by
    rw [denials_cons, if_neg fun hboth => Bool.false_ne_true hboth.2]
    rfl
  rw [hopeners, hdenials] at hentry
  refine ⟨Table.insert g h.sector ⟨openers hs h.sector, removed h.sector, denials hs h.sector⟩,
    ?_, ?_⟩
  · refine hentry.bind ((gives_ofExcept (openers hs h.sector) g d).bind ?_)
    rw [if_pos (Nat.pos_of_ne_zero hopen)]
    exact gives_setEntry _ _ _ _
  · apply hc.insert hopen
    intro y hy
    obtain ⟨ho, hd⟩ := counts_cons_of_ne (h := ⟨h.sector, false⟩) hs hy
    exact ⟨ho.symm, hd.symm, rfl⟩

/-- The last handle on a file is closed, and the file goes if it is removed. -/
theorem gives_close_of_last (hc : g.Counts (h :: hs) removed) (hlast : openers hs h.sector = 0)
    (hreclaim : if removed h.sector then (Handle.reclaim h.sector).eval d = .ok ((), d')
      else d' = d) :
    ∃ g', Gives h.close g d () g' d' ∧ g'.Counts hs removed := by
  apply gives_close_of_leave hc
  intro g hc
  have hentry := gives_entry h.sector g d
  rw [hc.entry_of_ne_zero (openers_ne_zero List.mem_cons_self)] at hentry
  have hopeners : openers (⟨h.sector, false⟩ :: hs) h.sector = 0 + 1 := by
    rw [openers_cons, if_pos rfl, hlast]
  rw [hopeners] at hentry
  refine ⟨Table.erase g h.sector, ?_, ?_⟩
  · refine hentry.bind ((gives_ofExcept 0 g d).bind ?_)
    rw [if_neg (Nat.lt_irrefl 0)]
    have herase : Gives (modify fun r : Registry => r.erase h.sector) g d ⟨⟩
        (Table.erase g h.sector) d := rfl
    refine herase.bind ?_
    cases hremoved : removed h.sector with
    | false =>
      rw [hremoved, if_neg Bool.false_ne_true] at hreclaim
      rw [if_neg Bool.false_ne_true, hreclaim]
      exact gives_pure _ _ _
    | true =>
      rw [hremoved, if_pos rfl] at hreclaim
      rw [if_pos rfl]
      exact gives_lift hreclaim _
  · apply hc.erase hlast
    intro y hy
    obtain ⟨ho, hd⟩ := counts_cons_of_ne (h := ⟨h.sector, false⟩) hs hy
    exact ⟨ho.symm, hd.symm, rfl⟩

end Operations

end SectorVolume
