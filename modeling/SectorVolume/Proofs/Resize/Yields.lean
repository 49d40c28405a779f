import SectorVolume.Inode.Resize
import SectorVolume.Proofs.Script.Medium

/-!
What the steps of a walk do on a medium. A walk ends with an outcome, a journal and a medium;
after a refusal nothing more is done.
-/

namespace SectorVolume

namespace Walk

variable {α β : Type} {j j' j'' : Journal} {d d' d'' : Medium}

/-- A walk from a journal and a medium ends in `r`, with the journal `j'` and the medium `d'`. -/
def Yields (w : Walk α) (j : Journal) (d : Medium) (r : Except Refusal α) (j' : Journal)
    (d' : Medium) : Prop := (w.run.run j).eval d = .ok ((r, j'), d')

theorem yields_pure (a : α) (j : Journal) (d : Medium) :
    Yields (pure a : Walk α) j d (.ok a) j d := rfl

theorem Yields.bind {w : Walk α} {k : α → Walk β} {a : α} {r : Except Refusal β}
    (hw : w.Yields j d (.ok a) j' d') (hk : (k a).Yields j' d' r j'' d'') :
    (w >>= k).Yields j d r j'' d'' := by
  have heval : ((w >>= k).run.run j).eval d = ((k a).run.run j').eval d' := by
    rw [ExceptT.run_bind, StateT.run_bind, Script.eval_bind_of_ok hw]
  rw [Yields, heval]
  exact hk

theorem Yields.bind_pure {w : Walk α} {a : α} (hw : w.Yields j d (.ok a) j' d') (f : α → β) :
    (w >>= fun a => pure (f a)).Yields j d (.ok (f a)) j' d' :=
  hw.bind (yields_pure (f a) j' d')

theorem Yields.exists_of_bind_pure {w : Walk α} {f : α → β} {b : β}
    (h : (w >>= fun a => pure (f a)).Yields j d (.ok b) j' d') : ∃ a, b = f a := by
  rw [Yields, ExceptT.run_bind, StateT.run_bind, Script.eval_bind] at h
  cases heval : (w.run.run j).eval d with
  | error f => simp [heval] at h
  | ok outcome =>
    obtain ⟨⟨r, j''⟩, d''⟩ := outcome
    rw [heval] at h
    cases r with
    | error refusal => cases h
    | ok a =>
      cases h
      exact ⟨a, rfl⟩

theorem bind_pure_pair {γ : Type} (w : Walk α) (w' : Walk β) (f : α → β → γ) :
    ((w >>= fun a => w' >>= fun b => pure (a, b)) >>= fun x => pure (f x.1 x.2)) =
      w >>= fun a => w' >>= fun b => pure (f a b) := by
  simp only [bind_assoc, pure_bind]

theorem Yields.bind_error {w : Walk α} {refusal : Refusal}
    (hw : w.Yields j d (.error refusal) j' d') (k : α → Walk β) :
    (w >>= k).Yields j d (.error refusal) j' d' := by
  rw [Yields, ExceptT.run_bind, StateT.run_bind, Script.eval_bind_of_ok hw]
  rfl

/-- A script within a walk leaves the journal alone. -/
theorem run_lift (p : Script α) (j : Journal) :
    (liftM p : Walk α).run.run j = p >>= fun a => pure (.ok a, j) := by
  change ((p >>= fun a => pure (a, j)) >>= fun a => pure (Except.ok a.1, a.2)) = _
  rw [bind_assoc]
  rfl

theorem yields_lift {p : Script α} {a : α} (h : p.eval d = .ok (a, d')) (j : Journal) :
    Yields (liftM p : Walk α) j d (.ok a) j d' := by
  rw [Yields, run_lift, Script.eval_bind_of_ok h]
  rfl

theorem yields_modify (f : Journal → Journal) (j : Journal) (d : Medium) :
    Yields (modify f : Walk PUnit) j d (.ok ⟨⟩) (f j) d := rfl

theorem yields_take_of_cons {s : UInt32} {rest : List UInt32} (hw : d.map.bitmap.Within d.size)
    (h : d.map.supply = s :: rest) (j : Journal) :
    take.Yields j d (.ok s) { j with allocated := s :: j.allocated }
      { d with map := d.map.grant s } := by
  refine Yields.bind (yields_lift (Script.eval_allocSector_of_cons hw h) j) ?_
  exact Yields.bind (yields_modify _ _ _) (yields_pure _ _ _)

theorem yields_take_of_nil (h : d.map.supply = []) (j : Journal) :
    take.Yields j d (.error .noSpace) j { d with map := d.map.refuse } := by
  refine Yields.bind (yields_lift (Script.eval_allocSector_of_nil h) j) ?_
  rfl

end Walk

end SectorVolume
