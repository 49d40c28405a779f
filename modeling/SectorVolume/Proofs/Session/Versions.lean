import SectorVolume.Proofs.Session.Answers
import SectorVolume.Proofs.Session.Twins

/-!
Runs of the same steps behind different caches. Flushes may be put in anywhere, and so may looks
at the counters of the cache and the device; all other steps are answered alike, and twins are
twins again at the end.
-/

namespace SectorVolume

/-- Steps that look at the free map. -/
def MapStep.isQuery : MapStep → Bool
  | .isUsed _ | .freeCount | .capacity | .usedRuns | .requests => true
  | _ => false

namespace Step

/-- Steps on files and on handles. -/
def onFiles : Step → Bool
  | .make _ _ | .open _ _ | .openInodes | .handle _ _ | .map (.limit _) => true
  | _ => false

/-- Steps that are answered alike behind every cache. -/
def isObserved : Step → Bool
  | .map step => step.isQuery || onFiles (.map step)
  | step => onFiles step

/-- Flushes, and steps that show counters of the cache or the device. -/
def isIdle : Step → Bool
  | .flush | .summary | .cache .stats | .cache .sectors | .cache .capacity | .cache (.contains _)
  | .device _ .transfers => true
  | _ => false

/-- Two lists of steps that become the same without the idle ones. -/
inductive Versions : List Step → List Step → Prop
  | nil : Versions [] []
  | both {step : Step} {steps₁ steps₂ : List Step} (h : step.isObserved = true) :
    Versions steps₁ steps₂ → Versions (step :: steps₁) (step :: steps₂)
  | left {step : Step} {steps₁ steps₂ : List Step} (h : step.isIdle = true) :
    Versions steps₁ steps₂ → Versions (step :: steps₁) steps₂
  | right {step : Step} {steps₁ steps₂ : List Step} (h : step.isIdle = true) :
    Versions steps₁ steps₂ → Versions steps₁ (step :: steps₂)

/-- The answers to the observed steps. -/
def observed (steps : List Step) (answers : List Answer) : List Answer :=
  ((steps.zip answers).filter fun e => e.1.isObserved).map Prod.snd

theorem observed_nil (steps : List Step) : observed steps [] = [] := by
  rw [observed, List.zip_nil_right]
  rfl

theorem observed_cons_of_observed {step : Step} (h : step.isObserved = true) (steps : List Step)
    (a : Answer) (answers : List Answer) :
    observed (step :: steps) (a :: answers) = a :: observed steps answers := by
  simp only [observed, List.zip_cons_cons, List.filter_cons, h, if_true, List.map_cons]

theorem isObserved_of_isIdle {step : Step} (h : step.isIdle = true) :
    step.isObserved = false := by
  cases step with
  | cache step => rfl
  | device target step => rfl
  | flush => rfl
  | summary => rfl
  | _ => exact absurd h (by simp [isIdle])

theorem observed_cons_of_idle {step : Step} (h : step.isIdle = true) (steps : List Step)
    (a : Answer) (answers : List Answer) :
    observed (step :: steps) (a :: answers) = observed steps answers := by
  simp only [observed, List.zip_cons_cons, List.filter_cons, isObserved_of_isIdle h,
    Bool.false_eq_true, if_false]

theorem onFiles_or_query {step : Step} (h : step.isObserved = true) :
    step.onFiles = true ∨ ∃ query, step = .map query ∧ query.isQuery = true ∧
      step.onFiles = false := by
  cases step with
  | map step =>
    cases step with
    | limit quota => exact Or.inl rfl
    | alloc count => exact absurd h (by simp [isObserved, MapStep.isQuery, onFiles])
    | release sector count => exact absurd h (by simp [isObserved, MapStep.isQuery, onFiles])
    | reserve sector count => exact absurd h (by simp [isObserved, MapStep.isQuery, onFiles])
    | _ => exact Or.inr ⟨_, rfl, rfl, rfl⟩
  | _ => exact Or.inl h

theorem onFiles_of_isIdle {step : Step} (h : step.isIdle = true) : step.onFiles = false := by
  cases step with
  | cache step => rfl
  | device target step => rfl
  | flush => rfl
  | summary => rfl
  | _ => exact absurd h (by simp [isIdle])

end Step

namespace Session

variable {s t : Session} {r : Reference} {reserved : Nat}

theorem exists_flush_twin (hs : s.engine.store.Coherent) :
    ∃ s', onEngine (Engine.onStore Cached.flush) s = .ok () s' ∧ Twins s s' ∧
      ∀ x : UInt32, x.toNat < s'.engine.store.size →
        s'.engine.store.disk.device.sectors[x.toNat]? = some (s'.engine.store.content x) := by
  obtain ⟨c, hflush, hc, hsize, hcontent, hdisk⟩ := Cached.exists_flush hs
  refine ⟨{ s with engine := ⟨c, s.engine.map⟩ }, onEngine_of_ok (Engine.onStore_of_ok hflush),
    ⟨hs, hc, ?_, rfl, rfl⟩, hdisk⟩
  simp only [Engine.medium, hsize, hcontent]

/-- An idle step goes unnoticed. -/
theorem exists_idle (hs : s.engine.store.Coherent) {step : Step} (hidle : step.isIdle = true) :
    ∃ a s', run step s = .ok a s' ∧ Twins s s' ∧ made a = [] := by
  cases step with
  | flush =>
    obtain ⟨s', hflush, ht, -⟩ := exists_flush_twin hs
    exact ⟨.done, s', (bind_of_ok hflush).trans rfl, ht, rfl⟩
  | summary => exact ⟨_, s, rfl, Twins.refl hs, rfl⟩
  | cache step =>
    cases step with
    | stats => exact ⟨_, s, rfl, Twins.refl hs, rfl⟩
    | sectors => exact ⟨_, s, rfl, Twins.refl hs, rfl⟩
    | capacity => exact ⟨_, s, rfl, Twins.refl hs, rfl⟩
    | contains x => exact ⟨_, s, rfl, Twins.refl hs, rfl⟩
    | _ => exact absurd hidle (by simp [Step.isIdle])
  | device target step =>
    cases step with
    | transfers =>
      cases target with
      | managed => exact ⟨_, s, rfl, Twins.refl hs, rfl⟩
      | foreign => exact ⟨_, s, rfl, Twins.refl hs, rfl⟩
    | _ => exact absurd hidle (by simp [Step.isIdle])
  | _ => exact absurd hidle (by simp [Step.isIdle])

/-- A question to the free map has an answer or is a fault, and changes nothing. -/
theorem run_query {step : MapStep} (hquery : step.isQuery = true) (m : FreeMap) :
    (∃ a, step.run m = .ok a m ∧ made a = []) ∨ ∃ f, step.run m = .error f m := by
  cases step with
  | isUsed x =>
    cases hused : m.bitmap.isUsed x.toNat with
    | ok used => exact Or.inl ⟨.flag used, by simp only [MapStep.run, hused], rfl⟩
    | error f => exact Or.inr ⟨f, by simp only [MapStep.run, hused]⟩
  | freeCount => exact Or.inl ⟨_, rfl, rfl⟩
  | capacity => exact Or.inl ⟨_, rfl, rfl⟩
  | usedRuns => exact Or.inl ⟨_, rfl, rfl⟩
  | requests => exact Or.inl ⟨_, rfl, rfl⟩
  | _ => exact absurd hquery (by simp [MapStep.isQuery])

theorem run_map_of_ok {step : MapStep} {a : Answer}
    (h : step.run s.engine.map = .ok a s.engine.map) : run (.map step) s = .ok a s := by
  simp only [run, onEngine, Engine.onMap, h]

theorem run_map_of_error {step : MapStep} {f : Fault}
    (h : step.run s.engine.map = .error f s.engine.map) : run (.map step) s = .error f s := by
  simp only [run, onEngine, Engine.onMap, h]

theorem query_twins (ht : Twins s t) {step : MapStep} (hquery : step.isQuery = true) :
    (∃ a, run (.map step) s = .ok a s ∧ run (.map step) t = .ok a t ∧ made a = []) ∨
      ∃ f, run (.map step) s = .error f s ∧ run (.map step) t = .error f t := by
  rcases run_query hquery s.engine.map with ⟨a, hrun, hmade⟩ | ⟨f, hrun⟩
  · exact Or.inl ⟨a, run_map_of_ok hrun, run_map_of_ok (ht.map ▸ hrun), hmade⟩
  · exact Or.inr ⟨f, run_map_of_error hrun, run_map_of_error (ht.map ▸ hrun)⟩

theorem steady_run {step : Step} (hfiles : step.onFiles = true) : Steady (run step) := by
  cases step with
  | make length isDir => exact Steady.make length isDir
  | «open» k x => exact Steady.open k x
  | openInodes => exact Steady.openInodes
  | handle k step => exact Steady.handle k step
  | map step => exact Steady.onMap step.run
  | _ => exact absurd hfiles (by simp [Step.onFiles])

/-- Only steps on handles can be faults. -/
theorem exists_handle_of_error {step : Step} (hfiles : step.onFiles = true) {f : Fault}
    (h : r.run step = some (.error f)) : ∃ k handleStep, step = .handle k handleStep := by
  cases step with
  | handle k handleStep => exact ⟨k, handleStep, rfl⟩
  | make length isDir =>
    rw [Reference.run] at h
    split at h
    · cases h
    · split at h
      · cases h
      · cases h
  | «open» k x =>
    rw [Reference.run] at h
    split at h
    · cases h
    · cases h
  | openInodes => cases h
  | map step =>
    cases step with
    | limit quota => cases h
    | _ => exact absurd hfiles (by simp [Step.onFiles])
  | _ => exact absurd hfiles (by simp [Step.onFiles])

theorem shows_of_run_ok (hs : s.Shows reserved [] r) {step : Step}
    (hadmits : r.admits step = true)
    {a : Answer} {s' : Session} (hrun : run step s = .ok a s') (hnames : made a <+: r.names) :
    ∃ expected r', r.run step = some (.ok (expected, r')) ∧ s'.Shows reserved [] r' ∧
      r.names = made a ++ r'.names := by
  obtain ⟨outcome, houtcome, hfollows⟩ := follows_run hs step hadmits fun b t hb => by
    rw [hrun, EStateM.Result.ok.injEq] at hb
    rw [← hb.1]
    exact hnames
  rw [hrun] at hfollows
  cases outcome with
  | error f => exact False.elim hfollows
  | ok result =>
    obtain ⟨expected, r'⟩ := result
    exact ⟨expected, r', houtcome, hfollows.2.1, hfollows.2.2⟩

theorem run_error (hs : s.Shows reserved [] r) {step : Step} (hadmits : r.admits step = true)
    {f : Fault} {s' : Session} (hrun : run step s = .error f s') :
    r.run step = some (.error f) := by
  obtain ⟨outcome, houtcome, hfollows⟩ := follows_run hs step hadmits fun b t hb => by
    rw [hrun] at hb
    exact absurd hb (by simp)
  rw [hrun] at hfollows
  cases outcome with
  | error g =>
    obtain rfl : f = g := hfollows
    exact houtcome
  | ok result => exact False.elim hfollows

/-- A step on files that the reference allows does the same to twins. -/
theorem files_twins (hs : s.Shows reserved [] r) (ht : Twins s t) {step : Step}
    (hfiles : step.onFiles = true) (hadmits : r.admits step = true)
    (hnames : ∀ a s', run step s = .ok a s' → made a <+: r.names) :
    (∃ a s' t' expected r', run step s = .ok a s' ∧ run step t = .ok a t' ∧ Twins s' t' ∧
      r.run step = some (.ok (expected, r')) ∧ s'.Shows reserved [] r' ∧
      r.names = made a ++ r'.names) ∨
    ∃ f s' t', run step s = .error f s' ∧ run step t = .error f t' := by
  cases hresult : run step s with
  | ok a s' =>
    obtain ⟨expected, r', hr, hs', hmade⟩ :=
      shows_of_run_ok hs hadmits hresult (hnames a s' hresult)
    rcases (steady_run hfiles).twins ht hresult with hstray | ⟨t', hresult', ht'⟩
    · exact absurd hstray hs'.coherent.not_stray
    · exact Or.inl ⟨a, s', t', expected, r', rfl, hresult', ht', hr, hs', hmade⟩
  | error f s' =>
    have hr := run_error hs hadmits hresult
    obtain ⟨k, handleStep, rfl⟩ := exists_handle_of_error hfiles hr
    obtain ⟨outcome, houtcome, hfollows⟩ := follows_handle (ht.shows hs) k handleStep
    rw [hr, Option.some.injEq] at houtcome
    rw [← houtcome] at hfollows
    cases hresult' : run (.handle k handleStep) t with
    | ok a t' =>
      rw [hresult'] at hfollows
      exact False.elim hfollows
    | error g t' =>
      rw [hresult'] at hfollows
      obtain rfl : g = f := hfollows
      exact Or.inr ⟨g, s', t', rfl, rfl⟩

section Play

variable {step : Step} {rest : List Step} {a : Answer} {f : Fault} {s' : Session}

theorem play_cons_of_ok (h : run step s = .ok a s') :
    play (step :: rest) s = ⟨a :: (play rest s').answers, (play rest s').final⟩ := by
  simp only [play, Transcript.ofSteps, h]

theorem play_cons_of_error (h : run step s = .error f s') :
    play (step :: rest) s = ⟨[], .error f⟩ := by
  simp only [play, Transcript.ofSteps, h]

end Play

/-- Both runs end in the same fault, or in twins. -/
def EndsAlike (reserved size : Nat) : Except Fault Session → Except Fault Session → Prop
  | .ok s, .ok t => Twins s t ∧ s.engine.store.size = size ∧ ∃ r, s.Shows reserved [] r
  | .error f, .error g => f = g
  | _, _ => False

open Step in
/-- Runs of two versions. The reference goes along with the first one. -/
theorem versions_alike {steps₁ steps₂ : List Step} (hv : Versions steps₁ steps₂)
    {size : Nat} (hsize : s.engine.store.size = size) (hs : s.Shows reserved [] r)
    (ht : Twins s t)
    (hnames : r.names = (play steps₁ s).answers.flatMap made)
    (hadmits : Reference.admitsAll (steps₁.filter onFiles) r = true) :
    observed steps₁ (play steps₁ s).answers = observed steps₂ (play steps₂ t).answers ∧
      EndsAlike reserved size (play steps₁ s).final (play steps₂ t).final := by
  induction hv generalizing s t r with
  | nil => exact ⟨rfl, ht, hsize, r, hs⟩
  | @left step steps₁ steps₂ hidle _ ih =>
    obtain ⟨a, s', hrun, hs', hmade⟩ := exists_idle hs.coherent hidle
    rw [play_cons_of_ok hrun] at hnames ⊢
    rw [List.flatMap_cons, hmade, List.nil_append] at hnames
    rw [List.filter_cons_of_neg (by rw [onFiles_of_isIdle hidle]; decide)] at hadmits
    rw [observed_cons_of_idle hidle]
    have hsize' : s'.engine.store.size = size :=
      (congrArg Medium.size hs'.medium).symm.trans hsize
    exact ih hsize' (hs'.shows hs) (hs'.symm.trans ht) hnames hadmits
  | @right step steps₁ steps₂ hidle _ ih =>
    obtain ⟨a, t', hrun, ht', -⟩ := exists_idle ht.right hidle
    rw [play_cons_of_ok hrun, observed_cons_of_idle hidle]
    exact ih hsize hs (ht.trans ht') hnames hadmits
  | @both step steps₁ steps₂ hobserved _ ih =>
    rcases onFiles_or_query hobserved with hfiles | ⟨query, rfl, hquery, hfiles⟩
    · rw [List.filter_cons_of_pos hfiles, Reference.admitsAll, Bool.and_eq_true] at hadmits
      obtain ⟨hstep, hrest⟩ := hadmits
      have hprefix : ∀ a s', run step s = .ok a s' → made a <+: r.names := by
        intro a s' hok
        rw [hnames, play_cons_of_ok hok]
        exact List.prefix_append (made a) _
      rcases files_twins hs ht hfiles hstep hprefix with
        ⟨a, s', t', expected, r', hs₁, ht₁, ht', hr, hs', hmade⟩ | ⟨f, s', t', hs₁, ht₁⟩
      · rw [hr] at hrest
        rw [hmade, play_cons_of_ok hs₁] at hnames
        rw [play_cons_of_ok hs₁, play_cons_of_ok ht₁, observed_cons_of_observed hobserved,
          observed_cons_of_observed hobserved]
        have hsize' := ((steady_run hfiles).confined hs₁).size.trans hsize
        obtain ⟨hanswers, hends⟩ := ih hsize' hs' ht' (List.append_cancel_left hnames) hrest
        exact ⟨congrArg _ hanswers, hends⟩
      · rw [play_cons_of_error hs₁, play_cons_of_error ht₁, observed_nil, observed_nil]
        exact ⟨rfl, rfl⟩
    · rw [List.filter_cons_of_neg (by rw [hfiles]; decide)] at hadmits
      rcases query_twins ht hquery with ⟨a, hs₁, ht₁, hmade⟩ | ⟨f, hs₁, ht₁⟩
      · rw [play_cons_of_ok hs₁] at hnames
        rw [List.flatMap_cons, hmade, List.nil_append] at hnames
        rw [play_cons_of_ok hs₁, play_cons_of_ok ht₁, observed_cons_of_observed hobserved,
          observed_cons_of_observed hobserved]
        obtain ⟨hanswers, hends⟩ := ih hsize hs ht hnames hadmits
        exact ⟨congrArg _ hanswers, hends⟩
      · rw [play_cons_of_error hs₁, play_cons_of_error ht₁, observed_nil, observed_nil]
        exact ⟨rfl, rfl⟩

end Session

end SectorVolume
