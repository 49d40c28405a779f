import SectorVolume.Proofs.Registry.Marks
import SectorVolume.Proofs.Session.Closing
import SectorVolume.Proofs.Session.Unopened

/-!
Files that are removed while they are open. As long as some handle is on such a file nobody can
tell, save by asking: a run gives the same answers and leaves the same volume behind whether the
file is marked or not.
-/

namespace SectorVolume

namespace Session

variable {α β : Type} {s s' : Session} {r : Reference} {reserved : Nat} {x : UInt32}
  {h old : Handle}
  {k : Nat} {step : Step} {a : Answer}

/-- Takes the mark from the file in sector `x`. -/
def unmark (x : UInt32) (s : Session) : Session := { s with registry := s.registry.unmark x }

/-- The step marks the file in sector `x`, or asks whether it is marked. -/
def AsksMark (s : Session) (x : UInt32) (step : Step) : Prop :=
  ∃ k h, s.handles.get? k = some h ∧ h.sector = x ∧
    (step = .handle k .remove ∨ step = .handle k .isRemoved)

/-- What a computation does in a session it does there without the mark, too. -/
def Blind (x : UInt32) (m : SessionM α) (s : Session) : Prop :=
  ∀ a s', m s = .ok a s' → m (s.unmark x) = .ok a (s'.unmark x)

section Rules

theorem blind_pure (a : α) : Blind x (pure a) s := by
  intro b s' h
  cases h
  rfl

theorem Blind.bind {m : SessionM α} {k : α → SessionM β} (hm : Blind x m s)
    (hk : ∀ a s₁, m s = .ok a s₁ → Blind x (k a) s₁) : Blind x (m >>= k) s := by
  intro b s' h
  obtain ⟨a, s₁, hfirst, hrest⟩ := exists_of_bind_ok h
  exact (bind_of_ok (hm a s₁ hfirst)).trans (hk a s₁ hfirst b s' hrest)

theorem Blind.bind_pure {m : SessionM α} (hm : Blind x m s) (f : α → β) :
    Blind x (m >>= fun a => pure (f a)) s := hm.bind fun _ _ _ => blind_pure _

theorem blind_onEngine (m : EStateM Fault (Engine RamDisk) α) : Blind x (onEngine m) s := by
  intro a s' h
  obtain ⟨hm, hs'⟩ := onEngine_eq_ok h
  rw [hs']
  exact onEngine_of_ok hm

theorem blind_volume {v : VolumeM α} (hv : VolumeM.Alike x v v s.registry) :
    Blind x (volume v) s := by
  intro a s' h
  cases hrun : Engine.run (v s.registry) s.engine with
  | error f e => simp [volume, hrun] at h
  | ok result e =>
    simp only [volume, hrun, EStateM.Result.ok.injEq] at h
    obtain ⟨rfl, rfl⟩ := h
    have hrun' : Engine.run (v (s.registry.unmark x)) s.engine = .ok (result.1, _) e :=
      hv _ _ _ _ hrun
    simp only [volume, unmark, hrun']

theorem blind_modify_handles (f : Table Nat Handle → Table Nat Handle) :
    Blind x (modify fun s : Session => { s with handles := f s.handles } : SessionM PUnit) s := by
  intro a s' h
  cases h
  rfl

end Rules

namespace Shows

/-- Closing a handle while others are on the file. -/
theorem blind_close (hs : s.Shows reserved [h] r) (hopen : s.IsOpen x) :
    Blind x (volume h.close) s :=
  blind_volume (alike_close hs.counts fun _ => hs.isOpen_iff.1 hopen)

theorem blind_keep (hs : s.Shows reserved [h] r)
    (hopen : IsOpen { s with handles := s.handles.insert k h } x) :
    Blind x (Session.keep k h) s := by
  intro a s' hrun
  cases hk : s.handles.get? k with
  | none =>
    have hk' : (s.unmark x).handles.get? k = none := hk
    rw [keep_of_none hk] at hrun
    cases hrun
    exact keep_of_none hk'
  | some old =>
    have hk' : (s.unmark x).handles.get? k = some old := hk
    rw [keep_of_some hk] at hrun
    rw [keep_of_some hk']
    exact (hs.displaced (hs.handles ▸ hk)).blind_close hopen a s' hrun

section Steps

variable (hs : s.Shows reserved [] r)

include hs

/-- A step through a handle. -/
theorem blind_runHandle (hk : s.handles.get? k = some h) {action : HandleStep}
    (hasks : ¬s.AsksMark x (.handle k action))
    (hopen : IsOpen { s with handles := action.rolls s.handles k h } x) :
    Blind x (runHandle k h action) s := by
  have hk' := hs.handles ▸ hk
  have hne : action = .remove ∨ action = .isRemoved → x ≠ h.sector := by
    rintro haction rfl
    exact hasks ⟨k, h, hk, rfl, haction.imp (congrArg _) (congrArg _)⟩
  cases action with
  | close => exact Blind.bind_pure (fun a s' => (hs.dropped hk').blind_close hopen a s') _
  | reopen copy =>
    obtain ⟨s₁, s₂, hreopen, hcount, hs₂, -, hhandles⟩ := exists_reopen hs hk'
    refine (blind_volume alike_reopen).bind fun new t hnew => ?_
    rw [hreopen] at hnew
    cases hnew
    refine (blind_volume (alike_query _ fun e => OpenEntry.openers_unmark x _ e)).bind
      fun count t hcount' => ?_
    have hcount'' : volume (Handle.openCount ⟨h.sector, false⟩) s₁ = .ok count t := hcount'
    rw [hcount] at hcount''
    cases hcount''
    refine (hs₂.blind_keep ?_).bind_pure _
    rw [hhandles]
    exact hopen
  | remove => exact (blind_volume (alike_remove (hne (.inl rfl)))).bind_pure _
  | deny =>
    exact (blind_volume alike_deny).bind fun h _ _ =>
      (blind_modify_handles fun handles => handles.insert k h).bind_pure _
  | allow =>
    exact (blind_volume alike_allow).bind fun h _ _ =>
      (blind_modify_handles fun handles => handles.insert k h).bind_pure _
  | isRemoved => exact (blind_volume (alike_isRemoved (hne (.inr rfl)))).bind_pure _
  | isDenied =>
    exact (blind_volume
      (alike_query h.sector fun e => by rw [OpenEntry.denials_unmark])).bind_pure _
  | openCount =>
    exact (blind_volume
      (alike_query h.sector fun e => by rw [OpenEntry.openers_unmark])).bind_pure _
  | write offset data => exact (blind_volume (alike_writeAt offset data)).bind_pure _
  | inumber => exact blind_pure _
  | _ => exact (blind_onEngine _).bind_pure _

/-- A step after which the file is still open. -/
theorem blind_run (hadmits : r.admits step = true) (hasks : ¬s.AsksMark x step)
    (hrun : run step s = .ok a s') (hopen : s'.IsOpen x) :
    run step (s.unmark x) = .ok a (s'.unmark x) := by
  have hrolls := hs.rolls hrun
  cases step with
  | make length isDir =>
    refine (blind_onEngine _).bind (fun sector _ _ => ?_) a s' hrun
    cases sector with
    | none => exact blind_pure _
    | some sector => exact (blind_onEngine _).bind_pure _
  | «open» k y =>
    obtain ⟨f, hf⟩ := Option.isSome_iff_exists.1 hadmits
    obtain ⟨s₁, hopened, hs₁, -, hhandles⟩ := exists_open hs hf
    refine (blind_volume (alike_open y)).bind (fun new t hnew => ?_) a s' hrun
    rw [hopened] at hnew
    cases hnew
    refine (hs₁.blind_keep ?_).bind_pure _
    rw [IsOpen, hrolls] at hopen
    rw [hhandles]
    exact hopen
  | openInodes =>
    cases hrun
    exact congrArg (fun n => EStateM.Result.ok (Answer.number n) _) (Table.size_mapValues _ _)
  | flush => exact (blind_onEngine _).bind_pure _ a s' hrun
  | remount capacity =>
    obtain ⟨k, h, hk, -⟩ := hopen
    rw [hrolls] at hk
    cases hk
  | handle k action =>
    cases hk : s.handles.get? k with
    | none =>
      have hk' : (s.unmark x).handles.get? k = none := hk
      rw [run_handle_of_none hk] at hrun
      cases hrun
      exact run_handle_of_none hk' action
    | some h =>
      have hk' : (s.unmark x).handles.get? k = some h := hk
      rw [run_handle hk] at hrun
      rw [run_handle hk']
      refine hs.blind_runHandle hk hasks ?_ a s' hrun
      simp only [Step.rolls, hk] at hrolls
      rw [IsOpen, hrolls] at hopen
      exact hopen
  | summary =>
    cases hrun
    rfl
  | map action => exact blind_onEngine _ a s' hrun
  | _ => exact absurd hadmits (by simp [Reference.admits])

end Steps

/-- A run during which some handle is on the file at every moment. -/
theorem blind_play {later : List Step} (hs : s.Shows reserved [] r)
    (hnames : r.names = (play later s).answers.flatMap made)
    (hadmits : Reference.admitsAll later r = true) (hlast : (play later s).final = .ok s')
    (hopen : ∀ before after mid, later = before ++ after → (play before s).final = .ok mid →
      mid.IsOpen x)
    (hasks : ∀ before step after mid, later = before ++ step :: after →
      (play before s).final = .ok mid → ¬mid.AsksMark x step) :
    play later (s.unmark x) = ⟨(play later s).answers, .ok (s'.unmark x)⟩ := by
  induction later generalizing s r with
  | nil =>
    obtain rfl := Except.ok.inj hlast
    rfl
  | cons step rest ih =>
    obtain ⟨hstep, -⟩ := admits_next hnames hadmits
    cases hrun : run step s with
    | error f s₁ =>
      rw [play_cons_of_error hrun] at hlast
      cases hlast
    | ok a s₁ =>
      obtain ⟨-, r₁, -, -, hs₁, hnames₁, hadmits₁⟩ := hs.at_next hnames hadmits hrun
      have hshift : ∀ before mid, (play before s₁).final = .ok mid →
          (play (step :: before) s).final = .ok mid := by
        intro before mid hmid
        rw [play_cons_of_ok hrun]
        exact hmid
      have hopen₁ := hopen [step] rest s₁ rfl (hshift [] s₁ rfl)
      have hsame := hs.blind_run hstep (hasks [] step rest s rfl rfl) hrun hopen₁
      rw [play_cons_of_ok hrun] at hlast
      rw [play_cons_of_ok hrun, play_cons_of_ok hsame, ih hs₁ hnames₁ hadmits₁ hlast]
      · rintro before after mid rfl hmid
        exact hopen (step :: before) after mid rfl (hshift before mid hmid)
      · rintro before next after mid rfl hmid
        exact hasks (step :: before) next after mid rfl (hshift before mid hmid)

end Shows

end Session

end SectorVolume
