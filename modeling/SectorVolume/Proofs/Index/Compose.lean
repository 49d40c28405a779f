import SectorVolume.Proofs.Index.Refit

/-!
Fitting a row of trees twice. What a row becomes depends on the sectors that are taken and on
nothing else. A row that grows in two steps takes the same sectors in the same order as one that
grows at once: a step ends inside at most one tree, and what the second step adds comes behind
that place. Cutting a row that was fitted before undoes the end of that: what is left is what the
shorter length would have made of the row, with the first of the sectors that were taken.
-/

namespace SectorVolume

namespace Forest

theorem span_holes (level : Nat) : (holes level).span = SectorVolume.span (level + 1) :=
  span_ofBelow _

/-- Fitted to nothing, a row has holes only. -/
theorem refit_bare (F : Forest) : Refit F 0 F.bare [] := by
  induction F with
  | nil => exact Refit.nil
  | cons t F ih => exact Refit.drop ih

theorem fits_holes_zero (level : Nat) : (holes level).Fits 0 := by
  have hfits := (refit_bare (holes level)).fits
  rwa [holes, bare_ofBelow] at hfits

namespace Refit

variable {F F₁ F₂ : Forest} {n n₁ n₂ : Nat} {taken taken₁ taken₂ : List UInt32}

/-- A row that is needed to its end is fitted alike however many blocks are asked for. -/
theorem of_span_le (h : Refit F n F₁ taken) (hn : F.span ≤ n) {m : Nat} (hm : F.span ≤ m) :
    Refit F m F₁ taken := by
  induction h generalizing m with
  | nil => exact nil
  | @drop level t F F' taken rest ih =>
    have hpos := span_pos level
    simp only [span] at hn
    omega
  | keep hne rest ih =>
    have hpos := span_pos 0
    simp only [span] at hn hm
    exact keep (by omega) (ih (by omega) (by omega))
  | make hne rest ih =>
    have hpos := span_pos 0
    simp only [span] at hn hm
    exact make (by omega) (ih (by omega) (by omega))
  | @keepIndex level s below below' n F F' takenBelow taken hne under rest ihb ih =>
    have hpos := span_pos (level + 1)
    have hspan := span_ofBelow below
    simp only [span] at hn hm
    exact keepIndex (by omega) (ihb (by omega) (by omega)) (ih (by omega) (by omega))
  | @makeIndex level s below' n F F' takenBelow taken hne under rest ihb ih =>
    have hpos := span_pos (level + 1)
    have hspan := span_holes level
    simp only [span] at hn hm
    exact makeIndex (by omega) (ihb (by omega) (by omega)) (ih (by omega) (by omega))

theorem taken_eq_nil_of_zero (h : Refit F 0 F₁ taken) : taken = [] := by
  rw [← List.length_eq_zero_iff, h.length_taken, lacking_zero]

theorem bare_eq (h : Refit F n F₁ taken) : F₁.bare = F.bare := by
  induction h with
  | nil => rfl
  | drop _ ih => simp only [bare_cons, ih]
  | keep _ _ ih => simp only [bare_cons, ih]
  | make _ _ ih => simp only [bare_cons, ih]
  | keepIndex _ _ _ _ ih => simp only [bare_cons, ih]
  | makeIndex _ _ _ _ ih => simp only [bare_cons, ih]

section Cases

variable {level : Nat} {s : UInt32} {below : Fin 128 → Tree level}

theorem cases_zero {t : Tree level} (h : Refit (⟨level, t⟩ :: F) 0 F₁ taken) :
    ∃ G, F₁ = ⟨level, .hole⟩ :: G ∧ Refit F 0 G taken := by
  cases h with
  | drop rest => exact ⟨_, rfl, rest⟩
  | keep hn => exact absurd rfl hn
  | make hn => exact absurd rfl hn
  | keepIndex hn => exact absurd rfl hn
  | makeIndex hn => exact absurd rfl hn

theorem cases_data (h : Refit (⟨0, .data s⟩ :: F) n F₁ taken) (hn : n ≠ 0) :
    ∃ G, F₁ = ⟨0, .data s⟩ :: G ∧ Refit F (n - SectorVolume.span 0) G taken := by
  cases h with
  | drop => exact absurd rfl hn
  | keep _ rest => exact ⟨_, rfl, rest⟩

theorem cases_data_hole (h : Refit (⟨0, .hole⟩ :: F) n F₁ taken) (hn : n ≠ 0) :
    ∃ s G rest, F₁ = ⟨0, .data s⟩ :: G ∧ taken = s :: rest ∧
      Refit F (n - SectorVolume.span 0) G rest := by
  cases h with
  | drop => exact absurd rfl hn
  | make _ rest => exact ⟨_, _, _, rfl, rfl, rest⟩

theorem cases_index (h : Refit (⟨level + 1, .index s below⟩ :: F) n F₁ taken) (hn : n ≠ 0) :
    ∃ below₁ G under rest, F₁ = ⟨level + 1, .index s below₁⟩ :: G ∧ taken = under ++ rest ∧
      Refit (ofBelow below) n (ofBelow below₁) under ∧
      Refit F (n - SectorVolume.span (level + 1)) G rest := by
  cases h with
  | drop => exact absurd rfl hn
  | keepIndex _ hunder hrest => exact ⟨_, _, _, _, rfl, rfl, hunder, hrest⟩

theorem cases_index_hole (h : Refit (⟨level + 1, .hole⟩ :: F) n F₁ taken) (hn : n ≠ 0) :
    ∃ s below₁ G under rest, F₁ = ⟨level + 1, .index s below₁⟩ :: G ∧
      taken = s :: under ++ rest ∧ Refit (holes level) n (ofBelow below₁) under ∧
      Refit F (n - SectorVolume.span (level + 1)) G rest := by
  cases h with
  | drop => exact absurd rfl hn
  | makeIndex _ hunder hrest => exact ⟨_, _, _, _, _, rfl, rfl, hunder, hrest⟩

theorem eq_bare (h : Refit F 0 F₁ taken) : F₁ = F.bare := by
  induction F generalizing F₁ with
  | nil =>
    cases h
    rfl
  | cons t F ih =>
    obtain ⟨G, rfl, rest⟩ := h.cases_zero
    rw [ih rest, bare_cons]

end Cases

theorem emptied (h : Refit F n F₁ taken) (h₀ : Refit F₁ 0 F₂ taken₂) : Refit F 0 F₂ [] := by
  rw [h₀.eq_bare, h.bare_eq]
  exact refit_bare F

/-- The sectors that are taken settle what the row becomes. -/
theorem unique (h₁ : Refit F n F₁ taken) (h₂ : Refit F n F₂ taken) : F₁ = F₂ := by
  induction h₁ generalizing F₂ with
  | nil =>
    cases h₂
    rfl
  | drop rest ih =>
    obtain ⟨G, rfl, rest'⟩ := h₂.cases_zero
    rw [ih rest']
  | keep hn rest ih =>
    obtain ⟨G, rfl, rest'⟩ := h₂.cases_data hn
    rw [ih rest']
  | make hn rest ih =>
    obtain ⟨s, G, taken', rfl, htaken, rest'⟩ := h₂.cases_data_hole hn
    obtain ⟨rfl, rfl⟩ := List.cons.inj htaken
    rw [ih rest']
  | keepIndex hn under rest ihb ih =>
    obtain ⟨below₂, G, takenBelow, taken', rfl, htaken, under', rest'⟩ := h₂.cases_index hn
    obtain ⟨rfl, rfl⟩ :=
      List.append_inj htaken (under.length_taken.trans under'.length_taken.symm)
    rw [ofBelow_injective (ihb under'), ih rest']
  | makeIndex hn under rest ihb ih =>
    obtain ⟨s, below₂, G, takenBelow, taken', rfl, htaken, under', rest'⟩ :=
      h₂.cases_index_hole hn
    obtain ⟨hfirst, rfl⟩ := List.append_inj htaken (by
      rw [List.length_cons, List.length_cons, under.length_taken, under'.length_taken])
    obtain ⟨rfl, rfl⟩ := List.cons.inj hfirst
    rw [ofBelow_injective (ihb under'), ih rest']

/-- Where the shorter of two lengths ends in a row, nothing is taken for it behind the row; where
it is past the row, the longer length takes nothing more in it. -/
theorem eq_nil_or_eq_nil {G G₁ : Forest} {more rest : List UInt32} (h₁ : Refit F n₁ F₁ taken)
    (h₂ : Refit F n₂ F₂ (taken ++ more)) (hle : n₁ ≤ n₂)
    (hrest : Refit G (n₁ - F.span) G₁ rest) : rest = [] ∨ more = [] := by
  rcases Nat.le_total n₁ F.span with hinside | hpast
  · rw [Nat.sub_eq_zero_of_le hinside] at hrest
    exact Or.inl hrest.taken_eq_nil_of_zero
  · have hlength := (h₂.of_span_le (Nat.le_trans hpast hle) hpast).length_taken
    rw [List.length_append, h₁.length_taken] at hlength
    exact Or.inr (List.eq_nil_of_length_eq_zero (by omega))

/-- A row that fits grows in two steps as it does at once. -/
theorem trans (h₁ : Refit F n₁ F₁ taken₁) (h₂ : Refit F₁ n₂ F₂ taken₂) (hfits : F.Fits n)
    (hn : n ≤ n₁) (hle : n₁ ≤ n₂) : Refit F n₂ F₂ (taken₁ ++ taken₂) := by
  induction h₁ generalizing n n₂ F₂ taken₂ with
  | nil =>
    cases h₂
    exact nil
  | @drop level t F F' taken rest ih =>
    -- the row held nothing, so the first step left it as it was
    obtain rfl : n = 0 := by omega
    obtain ⟨hrow, rfl⟩ := (drop (t := t) rest).eq_of_fits hfits
    rw [hrow] at h₂
    exact h₂
  | @keep s n₁ F F' taken hne rest ih =>
    obtain ⟨-, hfits⟩ := (fits_cons _ _ _).1 hfits
    obtain ⟨G, rfl, rest'⟩ := h₂.cases_data (by omega)
    exact keep (by omega) (ih rest' hfits (by omega) (by omega))
  | @make s n₁ F F' taken hne rest ih =>
    obtain ⟨-, hfits⟩ := (fits_cons _ _ _).1 hfits
    obtain ⟨G, rfl, rest'⟩ := h₂.cases_data (by omega)
    exact make (by omega) (ih rest' hfits (by omega) (by omega))
  | @keepIndex level s below below' n₁ F F' takenBelow taken hne under rest ihb ih =>
    obtain ⟨htree, hfits⟩ := (fits_cons _ _ _).1 hfits
    obtain ⟨below₂, G, takenBelow', taken', rfl, rfl, under', rest'⟩ := h₂.cases_index (by omega)
    have hunder := ihb under' ((Tree.fits_index _ _ _).1 htree).2 hn hle
    have hboth := keepIndex (s := s) (by omega) hunder (ih rest' hfits (by omega) (by omega))
    rw [← span_ofBelow below] at rest
    rcases under.eq_nil_or_eq_nil hunder hle rest with rfl | rfl
    · simpa using hboth
    · simpa using hboth
  | @makeIndex level s below' n₁ F F' takenBelow taken hne under rest ihb ih =>
    obtain ⟨-, hfits⟩ := (fits_cons _ _ _).1 hfits
    obtain ⟨below₂, G, takenBelow', taken', rfl, rfl, under', rest'⟩ := h₂.cases_index (by omega)
    have hunder := ihb under' (fits_holes_zero level) (Nat.zero_le n₁) hle
    have hboth := makeIndex (s := s) (by omega) hunder (ih rest' hfits (by omega) (by omega))
    rw [← span_holes level] at rest
    rcases under.eq_nil_or_eq_nil hunder hle rest with rfl | rfl
    · simpa using hboth
    · simpa using hboth

/-- A row that was fitted and is cut back is what the shorter length makes of it, with the first
of the sectors that were taken. -/
theorem cut (h₂ : Refit F n₂ F₂ taken₂) (h₁ : Refit F₂ n₁ F₁ taken₁) (hle : n₁ ≤ n₂) :
    ∃ first later, taken₂ = first ++ later ∧ Refit F n₁ F₁ first := by
  induction h₂ generalizing n₁ F₁ taken₁ with
  | nil =>
    cases h₁
    exact ⟨[], [], rfl, nil⟩
  | @drop level t F F' taken rest ih =>
    obtain rfl : n₁ = 0 := by omega
    obtain ⟨G, rfl, rest'⟩ := h₁.cases_zero
    obtain ⟨first, later, rfl, hfirst⟩ := ih rest' (Nat.zero_le 0)
    exact ⟨first, later, rfl, drop hfirst⟩
  | @keep s n₂ F F' taken hne rest ih =>
    by_cases hn : n₁ = 0
    · subst hn
      exact ⟨[], _, rfl, (keep hne rest).emptied h₁⟩
    · obtain ⟨G, rfl, rest'⟩ := h₁.cases_data hn
      obtain ⟨first, later, rfl, hfirst⟩ := ih rest' (by omega)
      exact ⟨first, later, rfl, keep hn hfirst⟩
  | @make s n₂ F F' taken hne rest ih =>
    by_cases hn : n₁ = 0
    · subst hn
      exact ⟨[], _, rfl, (make hne rest).emptied h₁⟩
    · obtain ⟨G, rfl, rest'⟩ := h₁.cases_data hn
      obtain ⟨first, later, rfl, hfirst⟩ := ih rest' (by omega)
      exact ⟨s :: first, later, rfl, make hn hfirst⟩
  | @keepIndex level s below below' n₂ F F' takenBelow taken hne under rest ihb ih =>
    by_cases hn : n₁ = 0
    · subst hn
      exact ⟨[], _, rfl, (keepIndex hne under rest).emptied h₁⟩
    · obtain ⟨below₁, G, takenBelow', taken', rfl, -, under', rest'⟩ := h₁.cases_index hn
      obtain ⟨firstBelow, laterBelow, rfl, hunder⟩ := ihb under' hle
      obtain ⟨first, later, rfl, hfirst⟩ := ih rest' (by omega)
      have hboth := keepIndex (s := s) hn hunder hfirst
      rw [← span_ofBelow below] at hfirst
      rcases hunder.eq_nil_or_eq_nil under hle hfirst with rfl | rfl
      · exact ⟨_, laterBelow ++ later, by simp, hboth⟩
      · exact ⟨_, later, by simp, hboth⟩
  | @makeIndex level s below' n₂ F F' takenBelow taken hne under rest ihb ih =>
    by_cases hn : n₁ = 0
    · subst hn
      exact ⟨[], _, rfl, (makeIndex hne under rest).emptied h₁⟩
    · obtain ⟨below₁, G, takenBelow', taken', rfl, -, under', rest'⟩ := h₁.cases_index hn
      obtain ⟨firstBelow, laterBelow, rfl, hunder⟩ := ihb under' hle
      obtain ⟨first, later, rfl, hfirst⟩ := ih rest' (by omega)
      have hboth := makeIndex (s := s) hn hunder hfirst
      rw [← span_holes level] at hfirst
      rcases hunder.eq_nil_or_eq_nil under hle hfirst with rfl | rfl
      · exact ⟨_, laterBelow ++ later, by simp, hboth⟩
      · exact ⟨_, later, by simp, hboth⟩

end Refit

end Forest

end SectorVolume
