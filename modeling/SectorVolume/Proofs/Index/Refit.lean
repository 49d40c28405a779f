import SectorVolume.Proofs.Index.Lookup

/-!
Fitting a row of trees to `n` data blocks: blocks that are there and needed stay, blocks that are
missing are made in sectors taken for them, in order and an index block before what is below it,
and what is not needed goes. The row then fits, the sectors taken are as many as were lacking, and
no data block that stays has moved.
-/

namespace SectorVolume

namespace Forest

/-- A row fitted to `n` data blocks with the sectors taken for that. -/
inductive Refit : Forest → Nat → Forest → List UInt32 → Prop
  | nil {n : Nat} : Refit [] n [] []
  | drop {level : Nat} {t : Tree level} {F F' : Forest} {taken : List UInt32}
      (rest : Refit F 0 F' taken) : Refit (⟨level, t⟩ :: F) 0 (⟨level, .hole⟩ :: F') taken
  | keep {s : UInt32} {n : Nat} {F F' : Forest} {taken : List UInt32} (hn : n ≠ 0)
      (rest : Refit F (n - SectorVolume.span 0) F' taken) :
      Refit (⟨0, .data s⟩ :: F) n (⟨0, .data s⟩ :: F') taken
  | make {s : UInt32} {n : Nat} {F F' : Forest} {taken : List UInt32} (hn : n ≠ 0)
      (rest : Refit F (n - SectorVolume.span 0) F' taken) :
      Refit (⟨0, .hole⟩ :: F) n (⟨0, .data s⟩ :: F') (s :: taken)
  | keepIndex {level : Nat} {s : UInt32} {below below' : Fin 128 → Tree level} {n : Nat}
      {F F' : Forest} {takenBelow taken : List UInt32} (hn : n ≠ 0)
      (under : Refit (ofBelow below) n (ofBelow below') takenBelow)
      (rest : Refit F (n - SectorVolume.span (level + 1)) F' taken) :
      Refit (⟨level + 1, .index s below⟩ :: F) n (⟨level + 1, .index s below'⟩ :: F')
        (takenBelow ++ taken)
  | makeIndex {level : Nat} {s : UInt32} {below' : Fin 128 → Tree level} {n : Nat}
      {F F' : Forest} {takenBelow taken : List UInt32} (hn : n ≠ 0)
      (under : Refit (holes level) n (ofBelow below') takenBelow)
      (rest : Refit F (n - SectorVolume.span (level + 1)) F' taken) :
      Refit (⟨level + 1, .hole⟩ :: F) n (⟨level + 1, .index s below'⟩ :: F')
        (s :: takenBelow ++ taken)

theorem sectors_holes (level : Nat) : (holes level).sectors = [] := by
  rw [sectors, List.flatMap_eq_nil_iff]
  intro t ht
  obtain ⟨k, rfl⟩ := List.mem_ofFn.1 ht
  rfl

theorem beyond_holes (level n : Nat) : (holes level).beyond n = [] := by
  rw [beyond, List.flatMap_eq_nil_iff]
  intro share hshare
  rw [holes, ofBelow, shares_ofFn] at hshare
  obtain ⟨k, rfl⟩ := List.mem_ofFn.1 hshare
  rfl

theorem block?_holes (level i : Nat) : (holes level).block? i = none := by
  rw [holes, ofBelow, block?_ofFn]
  split <;> rfl

theorem ofBelow_injective {level : Nat} {below below' : Fin 128 → Tree level}
    (h : ofBelow below = ofBelow below') : below = below' := by
  have hrow := List.ofFn_injective h
  funext k
  exact eq_of_heq (Sigma.mk.inj (congrFun hrow k)).2

end Forest

theorem Tree.eq_hole_of_fits_zero {level : Nat} {t : Tree level} (h : t.Fits 0) : t = .hole := by
  cases t with
  | hole => rfl
  | data s => exact absurd rfl h
  | index s below => exact absurd rfl h.1

namespace Forest

namespace Refit

variable {F F' G G' : Forest} {n : Nat} {taken taken' : List UInt32}

theorem append (h : Refit F n F' taken) (h' : Refit G (n - F.span) G' taken') :
    Refit (F ++ G) n (F' ++ G') (taken ++ taken') := by
  induction h with
  | nil => simpa [span] using h'
  | drop _ ih =>
    simp only [span, Nat.zero_sub] at h' ih ⊢
    exact drop (ih h')
  | keep hn _ ih =>
    simp only [span, ← Nat.sub_sub] at h'
    exact keep hn (ih h')
  | make hn _ ih =>
    simp only [span, ← Nat.sub_sub] at h'
    exact make hn (ih h')
  | keepIndex hn under _ _ ih =>
    simp only [span, ← Nat.sub_sub] at h'
    rw [List.append_assoc]
    exact keepIndex hn under (ih h')
  | makeIndex hn under _ _ ih =>
    simp only [span, ← Nat.sub_sub] at h'
    rw [List.cons_append, List.cons_append, List.append_assoc]
    exact makeIndex hn under (ih h')

theorem fits (h : Refit F n F' taken) : F'.Fits n := by
  induction h with
  | nil => exact fits_nil _
  | drop _ ih => exact (fits_cons _ _ _).2 ⟨rfl, by rwa [Nat.zero_sub]⟩
  | keep hn _ ih => exact (fits_cons _ _ _).2 ⟨hn, ih⟩
  | make hn _ ih => exact (fits_cons _ _ _).2 ⟨hn, ih⟩
  | keepIndex hn _ _ ihb ih => exact (fits_cons _ _ _).2 ⟨(Tree.fits_index _ _ _).2 ⟨hn, ihb⟩, ih⟩
  | makeIndex hn _ _ ihb ih => exact (fits_cons _ _ _).2 ⟨(Tree.fits_index _ _ _).2 ⟨hn, ihb⟩, ih⟩

/-- As many sectors are taken as were lacking. -/
theorem length_taken (h : Refit F n F' taken) : taken.length = F.lacking n := by
  induction h with
  | nil => rfl
  | @drop level t F F' taken _ ih =>
    rw [lacking_cons, lacking_tree_zero, Nat.zero_sub, Nat.zero_add, ih]
  | keep _ _ ih => rw [lacking_cons, Tree.lacking_data, Nat.zero_add, ih]
  | make hn _ ih =>
    rw [lacking_cons, Tree.lacking_hole_zero, if_neg hn, List.length_cons, ih, Nat.add_comm]
  | keepIndex _ _ _ ihb ih => rw [lacking_cons, Tree.lacking_index, List.length_append, ihb, ih]
  | makeIndex hn _ _ ihb ih =>
    rw [lacking_cons, Tree.lacking_hole_succ, if_neg hn, List.cons_append, List.length_cons,
      List.length_append, ihb, ih, Nat.add_comm 1, Nat.add_right_comm]

/-- The sectors before and those taken are the sectors afterwards and those that go. -/
theorem sectors_perm (h : Refit F n F' taken) :
    (F'.sectors ++ F.beyond n).Perm (F.sectors ++ taken) := by
  induction h with
  | nil => exact List.Perm.refl _
  | @drop level t F F' taken rest ih =>
    have htree : (t.beyond 0).Perm t.sectors := by
      simpa [beyond, sectors, shares] using beyond_zero [⟨level, t⟩]
    rw [List.perm_iff_count] at ih ⊢
    intro a
    have hcount := htree.count_eq a
    have hih := ih a
    simp only [sectors_cons, beyond_cons, Tree.sectors, List.nil_append, List.count_append,
      Nat.zero_sub] at hih ⊢
    omega
  | keep hn _ ih =>
    rw [List.perm_iff_count] at ih ⊢
    intro a
    have hih := ih a
    simp only [sectors_cons, beyond_cons, Tree.sectors, Tree.beyond, if_neg hn, List.nil_append,
      List.count_append, List.count_cons, List.count_nil] at hih ⊢
    omega
  | make hn _ ih =>
    rw [List.perm_iff_count] at ih ⊢
    intro a
    have hih := ih a
    simp only [sectors_cons, beyond_cons, Tree.sectors, Tree.beyond, List.nil_append,
      List.count_append, List.count_cons, List.count_nil] at hih ⊢
    omega
  | keepIndex hn _ _ ihb ih =>
    rw [List.perm_iff_count] at ihb ih ⊢
    intro a
    have hihb := ihb a
    have hih := ih a
    simp only [sectors_cons, beyond_cons, Tree.sectors_index, Tree.beyond_index, if_neg hn,
      List.append_nil, List.count_append, List.count_cons] at hihb hih ⊢
    omega
  | @makeIndex level s below' n F F' takenBelow taken hn under _ ihb ih =>
    rw [beyond_holes, sectors_holes] at ihb
    rw [List.perm_iff_count] at ihb ih ⊢
    intro a
    have hihb := ihb a
    have hih := ih a
    simp only [sectors_cons, beyond_cons, Tree.sectors_index, Tree.sectors_hole, Tree.beyond,
      List.nil_append, List.append_nil, List.count_append, List.count_cons] at hihb hih ⊢
    omega

/-- A data block that is there and needed stays. -/
theorem block?_of_some (h : Refit F n F' taken) {i : Nat} (hi : i < n) {s : UInt32}
    (hs : F.block? i = some s) : F'.block? i = some s := by
  induction h generalizing i with
  | nil => exact absurd hs (by simp)
  | drop => exact absurd hi (by omega)
  | keep hn _ ih =>
    rw [block?_cons] at hs ⊢
    split
    · rwa [if_pos ‹_›] at hs
    · rw [if_neg ‹_›] at hs
      exact ih (by omega) hs
  | make hn _ ih =>
    rw [block?_cons] at hs ⊢
    split
    · rw [if_pos ‹_›] at hs
      exact absurd hs (by simp [Tree.block?])
    · rw [if_neg ‹_›] at hs
      exact ih (by omega) hs
  | keepIndex hn _ _ ihb ih =>
    rw [block?_cons, Tree.block?_index] at hs ⊢
    split
    · rw [if_pos ‹_›] at hs
      exact ihb hi hs
    · rw [if_neg ‹_›] at hs
      exact ih (by omega) hs
  | makeIndex hn _ _ _ ih =>
    rw [block?_cons] at hs ⊢
    split
    · rw [if_pos ‹_›] at hs
      exact absurd hs (by simp [Tree.block?])
    · rw [if_neg ‹_›] at hs
      exact ih (by omega) hs

/-- A data block that was missing lies in a sector that was taken. -/
theorem mem_taken_of_none (h : Refit F n F' taken) {i : Nat} {s : UInt32}
    (hnone : F.block? i = none) (hs : F'.block? i = some s) : s ∈ taken := by
  induction h generalizing i with
  | nil => exact absurd hs (by simp)
  | drop _ ih =>
    rw [block?_cons] at hs hnone
    split at hs
    · exact absurd hs (by simp [Tree.block?])
    · rw [if_neg ‹_›] at hnone
      exact ih hnone hs
  | keep hn _ ih =>
    rw [block?_cons] at hs hnone
    split at hs
    · rw [if_pos ‹_›] at hnone
      exact absurd hnone (by simp [Tree.block?])
    · rw [if_neg ‹_›] at hnone
      exact ih hnone hs
  | make hn _ ih =>
    rw [block?_cons] at hs hnone
    split at hs
    · exact List.mem_cons.2 (Or.inl (Option.some.inj hs).symm)
    · rw [if_neg ‹_›] at hnone
      exact List.mem_cons_of_mem _ (ih hnone hs)
  | keepIndex hn _ _ ihb ih =>
    rw [block?_cons, Tree.block?_index] at hs hnone
    split at hs
    · rw [if_pos ‹_›] at hnone
      exact List.mem_append_left _ (ihb hnone hs)
    · rw [if_neg ‹_›] at hnone
      exact List.mem_append_right _ (ih hnone hs)
  | @makeIndex level t below' n F F' takenBelow taken hn _ _ ihb ih =>
    rw [block?_cons] at hs hnone
    split at hs
    · rw [Tree.block?_index] at hs
      exact List.mem_append_left _ (List.mem_cons_of_mem _ (ihb (block?_holes level i) hs))
    · rw [if_neg ‹_›] at hnone
      exact List.mem_append_right _ (ih hnone hs)

/-- A row that fits is left as it is. -/
theorem eq_of_fits (h : Refit F n F' taken) (hfits : F.Fits n) : F' = F ∧ taken = [] := by
  induction h with
  | nil => exact ⟨rfl, rfl⟩
  | drop _ ih =>
    obtain ⟨htree, hrest⟩ := (fits_cons _ _ _).1 hfits
    obtain ⟨rfl, rfl⟩ := ih (by rwa [Nat.zero_sub] at hrest)
    exact ⟨by rw [Tree.eq_hole_of_fits_zero htree], rfl⟩
  | keep _ _ ih =>
    obtain ⟨rfl, rfl⟩ := ih ((fits_cons _ _ _).1 hfits).2
    exact ⟨rfl, rfl⟩
  | make hn => exact absurd ((fits_cons _ _ _).1 hfits).1 hn
  | keepIndex _ _ _ ihb ih =>
    obtain ⟨htree, hrest⟩ := (fits_cons _ _ _).1 hfits
    obtain ⟨hbelow, rfl⟩ := ihb ((Tree.fits_index _ _ _).1 htree).2
    obtain ⟨rfl, rfl⟩ := ih hrest
    exact ⟨by rw [ofBelow_injective hbelow], rfl⟩
  | makeIndex hn => exact absurd ((fits_cons _ _ _).1 hfits).1 hn

end Refit

end Forest

end SectorVolume
