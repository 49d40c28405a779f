import SectorVolume.Proofs.Registry.Counts

/-!
What operations on handles leave in the registry wherever they succeed. Scripts never touch the
registry, so this needs nothing of the disk: it may hold no file at all, and the cache need not
agree with it.
-/

namespace SectorVolume

namespace VolumeM

variable {α β : Type} {g : Registry} {P Q : α → Registry → Prop}

/-- An operation that succeeds from the registry `g`, on any engine, has an answer and a registry
as `Q` says. -/
def Leaves (v : VolumeM α) (g : Registry) (Q : α → Registry → Prop) : Prop :=
  ∀ (e e' : Engine RamDisk) a g', Engine.run (v.run g) e = .ok (a, g') e' → Q a g'

theorem leaves_pure {a : α} (h : Q a g) : Leaves (pure a) g Q := by
  intro e e' b g' hrun
  cases hrun
  exact h

theorem Leaves.bind {v : VolumeM α} {k : α → VolumeM β} {R : β → Registry → Prop}
    (hv : Leaves v g P) (hk : ∀ a g', P a g' → Leaves (k a) g' R) : Leaves (v >>= k) g R := by
  intro e e' b g' hrun
  rw [StateT.run_bind, Engine.run_bind] at hrun
  obtain ⟨⟨a, g₁⟩, e₁, hfirst, hrest⟩ := exists_of_bind_ok hrun
  exact hk a g₁ (hv e e₁ a g₁ hfirst) e₁ e' b g' hrest

theorem Leaves.mono {v : VolumeM α} (hv : Leaves v g P) (h : ∀ a g', P a g' → Q a g') :
    Leaves v g Q := fun e e' a g' hrun => h a g' (hv e e' a g' hrun)

theorem leaves_lift {p : Script α} (h : ∀ a, Q a g) : Leaves (liftM p) g Q := by
  intro e e' b g' hrun
  have hsplit : (liftM p : VolumeM α).run g = p >>= fun a => pure (a, g) := rfl
  rw [hsplit, Engine.run_bind] at hrun
  obtain ⟨a, e₁, -, hrest⟩ := exists_of_bind_ok hrun
  cases hrest
  exact h b

theorem leaves_get {Q : Registry → Registry → Prop} (h : Q g g) : Leaves get g Q := by
  intro e e' b g' hrun
  cases hrun
  exact h

theorem leaves_entry {x : UInt32} {Q : OpenEntry → Registry → Prop} (h : Q (g.entry x) g) :
    Leaves (entry x) g Q := by
  intro e e' b g' hrun
  cases hrun
  exact h

theorem leaves_modify {f : Registry → Registry} {Q : PUnit → Registry → Prop} (h : Q ⟨⟩ (f g)) :
    Leaves (modify f) g Q := by
  intro e e' b g' hrun
  cases hrun
  exact h

theorem leaves_ofExcept {r : Except Fault α} (h : ∀ a, r = .ok a → Q a g) :
    Leaves (ofExcept r) g Q := by
  intro e e' b g' hrun
  cases r with
  | error f => cases hrun
  | ok a =>
    cases hrun
    exact h b rfl

end VolumeM

open VolumeM

variable {g : Registry} {h : Handle} {hs : List Handle} {removed : UInt32 → Bool}

/-- The first opener makes an entry without a mark, the others share the entry that there is. -/
theorem leaves_open {x : UInt32} (hc : g.Counts hs removed)
    (hfresh : openers hs x = 0 → removed x = false) :
    Leaves (Volume.open x) g fun h g' => h = ⟨x, false⟩ ∧ g'.Counts (h :: hs) removed := by
  have hx := hc x
  refine (leaves_get (Q := fun g₀ g₁ => g₀ = g ∧ g₁ = g) ⟨rfl, rfl⟩).bind ?_
  rintro _ _ ⟨rfl, rfl⟩
  by_cases hnone : openers hs x = 0
  · have hle := denials_le_openers hs x
    have hentry : (⟨openers hs x + 1, removed x, denials hs x⟩ : OpenEntry) = .fresh := by
      rw [hnone, hfresh hnone, show denials hs x = 0 by omega]
      rfl
    have hcons := hc.cons x
    rw [hentry] at hcons
    rw [if_pos hnone] at hx
    rw [hx]
    refine (leaves_lift (Q := fun _ g₁ => g₁ = _) fun _ => rfl).bind ?_
    rintro _ _ rfl
    exact (leaves_modify (Q := fun _ g' => g'.Counts _ _) hcons).bind fun _ _ hg' =>
      leaves_pure ⟨rfl, hg'⟩
  · rw [if_neg hnone] at hx
    rw [hx]
    exact (leaves_modify (Q := fun _ g' => g'.Counts _ _) (hc.cons x)).bind fun _ _ hg' =>
      leaves_pure ⟨rfl, hg'⟩

theorem leaves_reopen (hc : g.Counts hs removed) (hmem : h ∈ hs) :
    Leaves h.reopen g fun h' g' => h' = ⟨h.sector, false⟩ ∧ g'.Counts (h' :: hs) removed := by
  have hentry := hc.entry_of_ne_zero (openers_ne_zero hmem)
  refine (leaves_entry (Q := fun e g₁ => e = _ ∧ g₁ = g) ⟨hentry, rfl⟩).bind ?_
  rintro _ _ ⟨rfl, rfl⟩
  exact (leaves_modify (Q := fun _ g' => g'.Counts _ _) (hc.cons h.sector)).bind fun _ _ hg' =>
    leaves_pure ⟨rfl, hg'⟩

theorem leaves_remove (hc : g.Counts hs removed) (hmem : h ∈ hs) :
    Leaves h.remove g fun _ g' => g'.Counts hs fun x => decide (h.sector = x) || removed x := by
  have hentry := hc.entry_of_ne_zero (openers_ne_zero hmem)
  have hother : ∀ y, y ≠ h.sector → openers hs y = openers hs y ∧ denials hs y = denials hs y ∧
      (decide (h.sector = y) || removed y) = removed y :=
    fun y hy => ⟨rfl, rfl, by simp [Ne.symm hy]⟩
  have hcounts := hc.insert (openers_ne_zero hmem) hother
  rw [decide_eq_true rfl, Bool.true_or] at hcounts
  refine (leaves_entry (Q := fun e g₁ => e = _ ∧ g₁ = g) ⟨hentry, rfl⟩).bind ?_
  rintro _ _ ⟨rfl, rfl⟩
  exact leaves_modify hcounts

theorem leaves_deny (hc : g.Counts (h :: hs) removed) :
    Leaves h.deny g fun h' g' =>
      h' = { h with denies := true } ∧ g'.Counts (h' :: hs) removed := by
  cases hdenies : h.denies with
  | true =>
    rw [Handle.deny, if_pos hdenies]
    exact (leaves_ofExcept (Q := fun _ _ => False) (by simp)).bind fun _ _ => False.elim
  | false =>
    have hdenials : denials (h :: hs) h.sector = denials hs h.sector := by
      rw [denials_cons, if_neg (by simp [hdenies])]
      rfl
    have hentry := hc.entry_of_ne_zero (openers_ne_zero List.mem_cons_self)
    have hcounts := hc.replace (b := true)
    rw [hdenials] at hentry
    rw [Handle.deny, if_neg (by simp [hdenies])]
    refine (leaves_entry (Q := fun e g₁ => e = _ ∧ g₁ = g) ⟨hentry, rfl⟩).bind ?_
    rintro _ _ ⟨rfl, rfl⟩
    dsimp only
    split
    · exact (leaves_ofExcept (Q := fun _ _ => False) (by simp)).bind fun _ _ => False.elim
    · exact (leaves_modify (Q := fun _ g' => g'.Counts _ _) hcounts).bind fun _ _ hg' =>
        leaves_pure ⟨rfl, hg'⟩

theorem leaves_allow (hc : g.Counts (h :: hs) removed) :
    Leaves h.allow g fun h' g' =>
      h' = { h with denies := false } ∧ g'.Counts (h' :: hs) removed := by
  cases hdenies : h.denies with
  | false =>
    rw [Handle.allow, if_pos (by simp [hdenies])]
    exact (leaves_ofExcept (Q := fun _ _ => False) (by simp)).bind fun _ _ => False.elim
  | true =>
    have hdenials : denials (h :: hs) h.sector = denials hs h.sector + 1 := by
      rw [denials_cons, if_pos ⟨rfl, hdenies⟩]
    have hentry := hc.entry_of_ne_zero (openers_ne_zero List.mem_cons_self)
    have hcounts := hc.replace (b := false)
    rw [hdenials] at hentry
    rw [Handle.allow, if_neg (by simp [hdenies])]
    refine (leaves_entry (Q := fun e g₁ => e = _ ∧ g₁ = g) ⟨hentry, rfl⟩).bind ?_
    rintro _ g ⟨rfl, rfl⟩
    refine (leaves_ofExcept (Q := fun n g₁ => n = denials hs h.sector ∧ g₁ = g) ?_).bind ?_
    · intro n hn
      exact ⟨(Except.ok.inj hn).symm, rfl⟩
    · rintro _ _ ⟨rfl, rfl⟩
      exact (leaves_modify (Q := fun _ g' => g'.Counts _ _) hcounts).bind fun _ _ hg' =>
        leaves_pure ⟨rfl, hg'⟩

/-- Closing a handle that denies nothing. The entry goes with the last handle. -/
theorem leaves_leave {x : UInt32} (hc : g.Counts (⟨x, false⟩ :: hs) removed) (hx : h.sector = x) :
    Leaves h.leave g fun _ g' => g'.Counts hs removed := by
  subst hx
  have hopeners : openers (⟨h.sector, false⟩ :: hs) h.sector = openers hs h.sector + 1 := by
    rw [openers_cons, if_pos rfl]
  have hdenials : denials (⟨h.sector, false⟩ :: hs) h.sector = denials hs h.sector := by
    rw [denials_cons, if_neg fun hboth => Bool.false_ne_true hboth.2]
    rfl
  have hother : ∀ y, y ≠ h.sector → openers hs y = openers (⟨h.sector, false⟩ :: hs) y ∧
      denials hs y = denials (⟨h.sector, false⟩ :: hs) y ∧ removed y = removed y := by
    intro y hy
    obtain ⟨ho, hd⟩ := counts_cons_of_ne (h := ⟨h.sector, false⟩) hs hy
    exact ⟨ho.symm, hd.symm, rfl⟩
  have hentry := hc.entry_of_ne_zero (x := h.sector) (by rw [hopeners]; omega)
  rw [hopeners, hdenials] at hentry
  refine (leaves_entry (Q := fun e g₁ => e = _ ∧ g₁ = g) ⟨hentry, rfl⟩).bind ?_
  rintro _ g ⟨rfl, rfl⟩
  refine (leaves_ofExcept (Q := fun n g₁ => n = openers hs h.sector ∧ g₁ = g) ?_).bind ?_
  · intro n hn
    exact ⟨(Except.ok.inj hn).symm, rfl⟩
  · rintro _ _ ⟨rfl, rfl⟩
    by_cases hlast : openers hs h.sector = 0
    · rw [if_neg (by omega)]
      refine (leaves_modify (Q := fun _ g' => g'.Counts _ _) (hc.erase hlast hother)).bind ?_
      intro _ g' hg'
      cases removed h.sector with
      | false => exact leaves_pure hg'
      | true => exact leaves_lift fun _ => hg'
    · rw [if_pos (Nat.pos_of_ne_zero hlast)]
      exact leaves_modify (hc.insert hlast hother)

theorem leaves_close (hc : g.Counts (h :: hs) removed) :
    Leaves h.close g fun _ g' => g'.Counts hs removed := by
  rw [Handle.close_eq]
  cases hdenies : h.denies with
  | false =>
    have hsame : h = ⟨h.sector, false⟩ := by rw [← hdenies]
    rw [hsame] at hc
    exact leaves_leave hc rfl
  | true =>
    refine (leaves_allow hc).bind ?_
    rintro _ g' ⟨rfl, hg'⟩
    exact leaves_leave hg' rfl

/-- A question about an entry. -/
theorem leaves_query {β : Type} (x : UInt32) (f : OpenEntry → β) (g : Registry) :
    Leaves (entry x >>= fun e => pure (f e)) g fun b g' => b = f (g.entry x) ∧ g' = g :=
  (leaves_entry (Q := fun e g' => e = g.entry x ∧ g' = g) ⟨rfl, rfl⟩).bind
    fun _ _ he => leaves_pure ⟨by rw [he.1], he.2⟩

/-- Writing looks at the registry and leaves it alone. -/
theorem leaves_writeAt (h : Handle) (g : Registry) (offset : Nat) (data : Array UInt8) :
    Leaves (h.writeAt offset data) g fun _ g' => g' = g := by
  refine (leaves_query h.sector (fun e => decide (0 < e.denials)) g).bind ?_
  rintro denied _ ⟨-, rfl⟩
  split
  · exact leaves_pure rfl
  · split
    · exact leaves_pure rfl
    · refine (leaves_lift (Q := fun _ g' => g' = _) fun _ => rfl).bind ?_
      rintro grown _ rfl
      cases grown with
      | error refusal => exact leaves_pure rfl
      | ok n => exact leaves_lift fun _ => rfl

end SectorVolume
