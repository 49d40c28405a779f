import SectorVolume.Proofs.Session.Versions

/-!
The moments of a run. A run up to a moment is a run, and so is what comes after it; it ends in a
fault just where one of its steps is that fault. A session that shows a reference in the beginning
shows one at every moment.
-/

namespace SectorVolume

namespace Transcript

variable {σ ι : Type} {run : ι → EStateM Fault σ Answer} {before after steps : List ι} {step : ι}
  {s t mid : σ} {f : Fault}

/-- A run goes on from where a shorter one has ended. -/
theorem ofSteps_append_of_ok (h : (ofSteps run before s).final = .ok mid) :
    ofSteps run (before ++ after) s =
      ⟨(ofSteps run before s).answers ++ (ofSteps run after mid).answers,
        (ofSteps run after mid).final⟩ := by
  rw [ofSteps_append, h]

theorem exists_mid_of_ok (h : (ofSteps run (before ++ after) s).final = .ok t) :
    ∃ mid, (ofSteps run before s).final = .ok mid ∧ (ofSteps run after mid).final = .ok t := by
  rw [ofSteps_append] at h
  cases hmid : (ofSteps run before s).final with
  | error f =>
    rw [hmid] at h
    cases h
  | ok mid =>
    rw [hmid] at h
    exact ⟨mid, rfl, h⟩

/-- The last step of a run without a fault. -/
theorem exists_last_of_ok (h : (ofSteps run (before ++ [step]) s).final = .ok t) :
    ∃ mid a, (ofSteps run before s).final = .ok mid ∧ run step mid = .ok a t := by
  obtain ⟨mid, hmid, hlast⟩ := exists_mid_of_ok h
  cases hrun : run step mid with
  | error f _ => simp [ofSteps, hrun] at hlast
  | ok a t' =>
    obtain rfl : t' = t := by simpa [ofSteps, hrun] using hlast
    exact ⟨mid, a, hmid, hrun⟩

/-- A run ends in a fault just where one of its steps is that fault. -/
theorem final_eq_error_iff : (ofSteps run steps s).final = .error f ↔
    ∃ before step after mid s', steps = before ++ step :: after ∧
      (ofSteps run before s).final = .ok mid ∧ run step mid = .error f s' := by
  constructor
  · intro h
    induction steps generalizing s with
    | nil => cases h
    | cons step rest ih =>
      rw [ofSteps] at h
      cases hrun : run step s with
      | error g s' =>
        rw [hrun] at h
        obtain rfl := Except.error.inj h
        exact ⟨[], step, rest, s, s', rfl, rfl, hrun⟩
      | ok a s₁ =>
        rw [hrun] at h
        obtain ⟨before, failing, after, mid, s', rfl, hmid, hfails⟩ := ih h
        refine ⟨step :: before, failing, after, mid, s', rfl, ?_, hfails⟩
        rw [ofSteps, hrun]
        exact hmid
  · rintro ⟨before, step, after, mid, s', rfl, hmid, hrun⟩
    rw [ofSteps_append_of_ok hmid, ofSteps, hrun]

end Transcript

namespace Session

variable {s mid : Session} {r : Reference} {reserved : Nat}

/-- The first step of a run takes the reference along. -/
theorem Shows.at_next {step : Step} {rest : List Step} {a : Answer} (hs : s.Shows reserved [] r)
    (hnames : r.names = (play (step :: rest) s).answers.flatMap made)
    (hadmits : Reference.admitsAll (step :: rest) r = true) (hrun : run step s = .ok a mid) :
    ∃ expected r', r.run step = some (.ok (expected, r')) ∧ r.names = made a ++ r'.names ∧
      mid.Shows reserved [] r' ∧ r'.names = (play rest mid).answers.flatMap made ∧
      Reference.admitsAll rest r' = true := by
  rw [Reference.admitsAll, Bool.and_eq_true] at hadmits
  obtain ⟨hstep, hrest⟩ := hadmits
  rw [play_cons_of_ok hrun, List.flatMap_cons] at hnames
  obtain ⟨expected, r', hr, hs', hmade⟩ := shows_of_run_ok hs hstep hrun
    (hnames ▸ List.prefix_append (made a) _)
  rw [hr] at hrest
  exact ⟨expected, r', hr, hmade, hs', List.append_cancel_left (hmade.symm.trans hnames), hrest⟩

/-- What a session shows at a moment of a run. -/
theorem Shows.at_moment {before after : List Step} (hs : s.Shows reserved [] r)
    (hnames : r.names = (play (before ++ after) s).answers.flatMap made)
    (hadmits : Reference.admitsAll (before ++ after) r = true)
    (hmid : (play before s).final = .ok mid) :
    ∃ r', mid.Shows reserved [] r' ∧ r'.names = (play after mid).answers.flatMap made ∧
      Reference.admitsAll after r' = true := by
  induction before generalizing s r with
  | nil =>
    obtain rfl := Except.ok.inj hmid
    exact ⟨r, hs, hnames, hadmits⟩
  | cons step rest ih =>
    cases hrun : run step s with
    | error f s₁ =>
      rw [play_cons_of_error hrun] at hmid
      cases hmid
    | ok a s₁ =>
      obtain ⟨-, r₁, -, -, hs₁, hnames₁, hadmits₁⟩ := hs.at_next hnames hadmits hrun
      rw [play_cons_of_ok hrun] at hmid
      exact ih hs₁ hnames₁ hadmits₁ hmid

theorem Shows.at_end {steps : List Step} {t : Session} (hs : s.Shows reserved [] r)
    (hnames : r.names = (play steps s).answers.flatMap made)
    (hadmits : Reference.admitsAll steps r = true) (hlast : (play steps s).final = .ok t) :
    ∃ r', t.Shows reserved [] r' := by
  obtain ⟨_, final, -, -, hends⟩ := follows_play steps hs hnames hadmits
  rw [hlast] at hends
  cases final with
  | error f => exact False.elim hends
  | ok r' => exact ⟨r', hends⟩

/-- The first of the steps to come is admitted, and a new file that it makes has the first of the
names to come. -/
theorem admits_next {step : Step} {rest : List Step}
    (hnames : r.names = (play (step :: rest) s).answers.flatMap made)
    (hadmits : Reference.admitsAll (step :: rest) r = true) :
    r.admits step = true ∧ ∀ a s', run step s = .ok a s' → made a <+: r.names := by
  rw [Reference.admitsAll, Bool.and_eq_true] at hadmits
  refine ⟨hadmits.1, fun a s' hrun => ?_⟩
  rw [hnames, play_cons_of_ok hrun, List.flatMap_cons]
  exact List.prefix_append (made a) _

end Session

end SectorVolume
