import SectorVolume.Answer

/-!
What a list of steps gives when it is carried out in order: the answers up to the first fault, and
the fault or the state at the end.
-/

namespace SectorVolume

structure Transcript (σ : Type) where
  answers : List Answer
  final : Except Fault σ

namespace Transcript

variable {σ ι : Type}

def ofSteps (run : ι → EStateM Fault σ Answer) : List ι → σ → Transcript σ
  | [], s => ⟨[], .ok s⟩
  | step :: rest, s =>
    match run step s with
    | .error f _ => ⟨[], .error f⟩
    | .ok a s =>
      let t := ofSteps run rest s
      ⟨a :: t.answers, t.final⟩

/-- Does one thing more, unless there was a fault. -/
def extend (t : Transcript σ) (m : EStateM Fault σ Answer) : Transcript σ :=
  match t.final with
  | .error _ => t
  | .ok s =>
    match m s with
    | .error f _ => ⟨t.answers, .error f⟩
    | .ok a s => ⟨t.answers ++ [a], .ok s⟩

theorem ofSteps_append (run : ι → EStateM Fault σ Answer) (before after : List ι) (s : σ) :
    ofSteps run (before ++ after) s =
      match (ofSteps run before s).final with
      | .error f => ⟨(ofSteps run before s).answers, .error f⟩
      | .ok mid =>
        ⟨(ofSteps run before s).answers ++ (ofSteps run after mid).answers,
          (ofSteps run after mid).final⟩ := by
  induction before generalizing s with
  | nil => rfl
  | cons step rest ih =>
    rw [List.cons_append, ofSteps, ofSteps]
    cases run step s with
    | error f _ => rfl
    | ok a t =>
      simp only [ih]
      cases (ofSteps run rest t).final <;> rfl

end Transcript

end SectorVolume
