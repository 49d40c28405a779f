import SectorVolume.Proofs.Script.Mute
import SectorVolume.Proofs.Session.Twins

/-!
Steps that change no byte of any sector. Opening and closing files, marking them and denying
writes are such steps, as are all that only look; sectors may be returned meanwhile.
-/

namespace SectorVolume

/-- Writes the file, or at least its inode. -/
def HandleStep.changes : HandleStep → Bool
  | .addChild | .removeChild | .write _ _ | .resize _ => true
  | _ => false

namespace Session

variable {α β : Type}

/-- Leaves every byte as it is, unless something was written beyond the end of the disk before. -/
structure Still (m : SessionM α) : Prop extends Steady m where
  content : ∀ {s s' : Session} {a}, s.engine.store.Coherent → m s = .ok a s' →
    s'.engine.store.Stray ∨
      s'.engine.store.Coherent ∧ s'.engine.store.content = s.engine.store.content

namespace Still

theorem content_eq {m : SessionM α} (hm : Still m) {s s' : Session} {a : α}
    (hs : s.engine.store.Coherent) (hs' : s'.engine.store.Coherent) (h : m s = .ok a s') :
    s'.engine.store.content = s.engine.store.content := by
  rcases hm.content hs h with hstray | ⟨-, hsame⟩
  · exact absurd hstray hs'.not_stray
  · exact hsame

theorem pure (a : α) : Still (pure a) where
  toSteady := Steady.pure a
  content hs h := by
    cases h
    exact Or.inr ⟨hs, rfl⟩

theorem bind {m : SessionM α} {k : α → SessionM β} (hm : Still m) (hk : ∀ a, Still (k a)) :
    Still (m >>= k) where
  toSteady := hm.toSteady.bind fun a => (hk a).toSteady
  content hs h := by
    obtain ⟨a, s₁, hfirst, hrest⟩ := exists_of_bind_ok h
    rcases hm.content hs hfirst with hstray | ⟨hs₁, hsame⟩
    · exact Or.inl (((hk a).confined hrest).stray hstray)
    · exact ((hk a).content hs₁ hrest).imp_right fun ⟨hs', hsame'⟩ => ⟨hs', hsame'.trans hsame⟩

theorem bind_pure {m : SessionM α} (hm : Still m) (f : α → β) :
    Still (m >>= fun a => Pure.pure (f a)) := hm.bind fun a => pure (f a)

theorem of_handles {m : SessionM α} {k : Table Nat Handle → SessionM α}
    (hm : ∀ s : Session, m s = k s.handles s) (h : ∀ x, Still (k x)) : Still m where
  toSteady := Steady.of_handles hm fun x => (h x).toSteady
  content hs hrun := by
    rw [hm] at hrun
    exact (h _).content hs hrun

theorem modify_handles (f : Table Nat Handle → Table Nat Handle) :
    Still (modify fun s => { s with handles := f s.handles }) where
  toSteady := Steady.modify_handles f
  content hs h := by
    cases h
    exact Or.inr ⟨hs, rfl⟩

theorem script {p : Script α} (hp : p.Mute) : Still (Session.script p) where
  toSteady := Steady.script p
  content hs h := by
    rcases Engine.eval_or_stray hs (onEngine_eq_ok h).1 with ⟨heval, hs'⟩ | hstray
    · exact Or.inr ⟨hs', hp.content_of_eval heval⟩
    · exact Or.inl hstray

theorem volume {v : VolumeM α} (hv : v.Mute) : Still (Session.volume v) where
  toSteady := Steady.volume v
  content := by
    intro s s' a hs h
    rcases Engine.eval_or_stray hs (volume_eq_ok h).1 with ⟨heval, hs'⟩ | hstray
    · exact Or.inr ⟨hs', (hv s.registry).content_of_eval heval⟩
    · exact Or.inl hstray

/-- A flush writes to the disk what the cache shows already. -/
theorem flush : Still (Session.onEngine (Engine.onStore Cached.flush)) where
  toSteady := Steady.flush
  content hs h := by
    obtain ⟨c, hflush, hc, -, hsame, -⟩ := Cached.exists_flush hs
    have hrun := (Engine.onStore_eq_ok (onEngine_eq_ok h).1).1
    rw [hflush, EStateM.Result.ok.injEq] at hrun
    rw [← hrun.2]
    exact Or.inr ⟨hc, hsame⟩

theorem onMap (m : EStateM Fault FreeMap α) : Still (Session.onEngine (Engine.onMap m)) where
  toSteady := Steady.onMap m
  content hs h := by
    have hstore := (Engine.onMap_eq_ok (onEngine_eq_ok h).1).2
    rw [hstore]
    exact Or.inr ⟨hs, rfl⟩

theorem openInodes : Still (Session.run .openInodes) where
  toSteady := Steady.openInodes
  content hs h := by
    cases h
    exact Or.inr ⟨hs, rfl⟩

theorem query (x : UInt32) (f : OpenEntry → α) :
    Still (Session.volume (VolumeM.entry x >>= fun e => Pure.pure (f e))) :=
  volume ((VolumeM.mute_entry x).bind fun _ => VolumeM.mute_pure _)

theorem closeHandle (k : Nat) (h : Handle) : Still (Session.closeHandle k h) :=
  (modify_handles fun handles => handles.erase k).bind fun _ => volume h.mute_close

theorem keep (k : Nat) (h : Handle) : Still (Session.keep k h) := by
  refine of_handles (k := fun handles =>
    (modify fun s => { s with handles := s.handles.insert k h }) >>= fun _ =>
      (handles.get? k).elim (Pure.pure ()) fun old => Session.volume old.close) ?_ ?_
  · intro s
    have hget : (get : SessionM Session) s = .ok s s := rfl
    rw [Session.keep, bind_of_ok hget]
    cases s.handles.get? k <;> rfl
  · intro handles
    refine (modify_handles fun x => x.insert k h).bind fun _ => ?_
    cases handles.get? k with
    | none => exact pure ()
    | some old => exact volume old.mute_close

theorem forM (f : β → SessionM Unit) (h : ∀ b, Still (f b)) (bs : List β) :
    Still (bs.forM f) := by
  induction bs with
  | nil => exact pure ()
  | cons b bs ih => exact (h b).bind fun _ => ih

theorem unmount : Still Session.unmount :=
  of_handles (fun _ => rfl) fun handles =>
    Still.bind (forM _ (fun (k, h) => closeHandle k h) handles.entries) fun _ => flush

theorem «open» (k : Nat) (sector : UInt32) : Still (Session.run (.open k sector)) :=
  (volume (Volume.mute_open sector)).bind fun h => (keep k h).bind_pure _

theorem runHandle (k : Nat) (h : Handle) {step : HandleStep} (hstep : step.changes = false) :
    Still (Session.runHandle k h step) := by
  have hinode : h.inode.Mute := Volume.mute_readInode h.sector
  cases step with
  | close => exact (closeHandle k h).bind_pure _
  | reopen copy =>
    exact (volume h.mute_reopen).bind fun new => (query new.sector OpenEntry.openers).bind
      fun count => (keep copy new).bind_pure _
  | remove => exact (volume h.mute_remove).bind_pure _
  | deny =>
    exact (volume h.mute_deny).bind fun h => (modify_handles fun x => x.insert k h).bind_pure _
  | allow =>
    exact (volume h.mute_allow).bind fun h => (modify_handles fun x => x.insert k h).bind_pure _
  | isRemoved => exact (query h.sector OpenEntry.removed).bind_pure _
  | isDenied => exact (query h.sector fun e => decide (0 < e.denials)).bind_pure _
  | openCount => exact (query h.sector OpenEntry.openers).bind_pure _
  | inumber => exact pure _
  | isDir => exact (script (hinode.bind fun _ => Script.mute_pure _)).bind_pure _
  | length => exact (script (hinode.bind fun _ => Script.mute_pure _)).bind_pure _
  | children => exact (script (hinode.bind fun _ => Script.mute_pure _)).bind_pure _
  | sectorAt pos => exact (script (hinode.bind fun n => n.mute_sectorAt? pos)).bind_pure _
  | read offset buffer =>
    exact (script (hinode.bind fun n => n.mute_readAt offset buffer.size)).bind_pure _
  | _ => cases hstep

end Still

end Session

end SectorVolume
