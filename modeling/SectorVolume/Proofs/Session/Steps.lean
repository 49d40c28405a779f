import SectorVolume.Session
import SectorVolume.Proofs.Volume.Gives

/-!
What a session does with scripts and with operations on handles. As long as the cache is coherent
both are decided by the medium that the engine shows, and the cache is coherent afterwards.
-/

namespace SectorVolume

namespace Session

variable {α : Type} {s : Session}

theorem script_of_eval_ok {p : Script α} {a : α} {d : Medium} (hc : s.engine.store.Coherent)
    (h : p.eval s.engine.medium = .ok (a, d)) :
    ∃ e, script p s = .ok a { s with engine := e } ∧ e.store.Coherent ∧ e.medium = d := by
  obtain ⟨e, hrun, hc', hmedium⟩ := Engine.run_of_eval_ok hc h
  refine ⟨e, ?_, hc', hmedium⟩
  simp only [script, onEngine, hrun]

theorem script_of_eval_error {p : Script α} {f : Fault} (hc : s.engine.store.Coherent)
    (hf : f ≠ .outOfBounds) (h : p.eval s.engine.medium = .error f) :
    ∃ s', script p s = .error f s' := by
  obtain ⟨e, hrun⟩ := Engine.run_of_eval_error hc hf h
  refine ⟨{ s with engine := e }, ?_⟩
  simp only [script, onEngine, hrun]

theorem volume_of_gives {v : VolumeM α} {a : α} {g : Registry} {d : Medium}
    (hc : s.engine.store.Coherent) (h : VolumeM.Gives v s.registry s.engine.medium a g d) :
    ∃ e, volume v s = .ok a { s with engine := e, registry := g } ∧ e.store.Coherent ∧
      e.medium = d := by
  obtain ⟨e, hrun, hc', hmedium⟩ := Engine.run_of_eval_ok hc h
  have hrun' : Engine.run (v s.registry) s.engine = .ok (a, g) e := hrun
  refine ⟨e, ?_, hc', hmedium⟩
  simp only [volume, hrun']

theorem volume_of_fails {v : VolumeM α} {f : Fault} (hc : s.engine.store.Coherent)
    (hf : f ≠ .outOfBounds) (h : VolumeM.Fails v s.registry s.engine.medium f) :
    ∃ s', volume v s = .error f s' := by
  obtain ⟨e, hrun⟩ := Engine.run_of_eval_error hc hf h
  have hrun' : Engine.run (v s.registry) s.engine = .error f e := hrun
  refine ⟨{ s with engine := e }, ?_⟩
  simp only [volume, hrun']

/-- A step on a handle that is kept is one on that handle. -/
theorem run_handle {k : Nat} {h : Handle} (hk : s.handles.get? k = some h) (step : HandleStep) :
    run (.handle k step) s = runHandle k h step s := by
  have hget : (get : SessionM Session) s = .ok s s := rfl
  rw [run, bind_of_ok hget, hk]

theorem run_handle_of_none {k : Nat} (hk : s.handles.get? k = none) (step : HandleStep) :
    run (.handle k step) s = .ok .unknown s := by
  have hget : (get : SessionM Session) s = .ok s s := rfl
  rw [run, bind_of_ok hget, hk]
  rfl

/-- A step on an inode that is held is one on that inode. -/
theorem run_inode {k : Nat} {n : Inode} (hk : s.held.get? k = some n) (step : InodeStep) :
    run (.inode k step) s = runInode k n step s := by
  have hget : (get : SessionM Session) s = .ok s s := rfl
  rw [run, bind_of_ok hget, hk]

end Session

end SectorVolume
