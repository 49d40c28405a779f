import SectorVolume.Proofs.Script.Stray
import SectorVolume.Proofs.Session.Simulation

/-!
Sessions that differ in their caches only. What a step on files does depends on what the cache
shows, on the free map, the registry and the handles, so two sessions that agree on these answer
alike and agree afterwards, unless the step has written beyond the end of the disk.
-/

namespace SectorVolume

namespace Session

variable {α β : Type}

/-- Only their caches and counters tell them apart. -/
structure Twins (s t : Session) : Prop where
  left : s.engine.store.Coherent
  right : t.engine.store.Coherent
  medium : s.engine.medium = t.engine.medium
  registry : s.registry = t.registry
  handles : s.handles = t.handles

namespace Twins

variable {s t u : Session}

theorem refl (h : s.engine.store.Coherent) : Twins s s := ⟨h, h, rfl, rfl, rfl⟩

theorem symm (h : Twins s t) : Twins t s :=
  ⟨h.right, h.left, h.medium.symm, h.registry.symm, h.handles.symm⟩

theorem trans (h : Twins s t) (h' : Twins t u) : Twins s u :=
  ⟨h.left, h'.right, h.medium.trans h'.medium, h.registry.trans h'.registry,
    h.handles.trans h'.handles⟩

theorem map (h : Twins s t) : s.engine.map = t.engine.map := congrArg Medium.map h.medium

/-- Twins show the same files. -/
theorem shows {reserved : Nat} {extra : List Handle} {r : Reference} (h : Twins s t)
    (hs : s.Shows reserved extra r) : t.Shows reserved extra r where
  coherent := h.right
  holds := h.medium ▸ hs.holds
  space := h.map ▸ hs.space
  handles := h.handles ▸ hs.handles
  sorted := hs.sorted
  counts := h.registry ▸ hs.counts
  live := hs.live
  removed_opened := hs.removed_opened

end Twins

theorem onEngine_eq_ok {m : EStateM Fault (Engine RamDisk) α} {s s' : Session} {a : α}
    (h : onEngine m s = .ok a s') : m s.engine = .ok a s'.engine ∧
      s' = { s with engine := s'.engine } := by
  cases hm : m s.engine with
  | ok b e =>
    simp only [onEngine, hm, EStateM.Result.ok.injEq] at h
    obtain ⟨rfl, rfl⟩ := h
    exact ⟨rfl, rfl⟩
  | error f e => simp [onEngine, hm] at h

theorem volume_eq_ok {v : VolumeM α} {s s' : Session} {a : α} (h : volume v s = .ok a s') :
    Engine.run (v s.registry) s.engine = .ok (a, s'.registry) s'.engine ∧
    s'.handles = s.handles := by
  cases hrun : Engine.run (v s.registry) s.engine with
  | ok result e =>
    simp only [volume, hrun, EStateM.Result.ok.injEq] at h
    obtain ⟨rfl, rfl⟩ := h
    exact ⟨rfl, rfl⟩
  | error f e => simp [volume, hrun] at h

/-- Twins do it alike. -/
structure Steady (m : SessionM α) : Prop where
  confined : ∀ {s s' : Session} {a}, m s = .ok a s' →
    Cached.Confined s.engine.store s'.engine.store
  twins : ∀ {s t s' : Session} {a}, Twins s t → m s = .ok a s' →
    s'.engine.store.Stray ∨ ∃ t', m t = .ok a t' ∧ Twins s' t'

namespace Steady

theorem pure (a : α) : Steady (pure a) where
  confined h := by
    cases h
    exact .refl _
  twins ht h := by
    cases h
    exact Or.inr ⟨_, rfl, ht⟩

theorem bind {m : SessionM α} {k : α → SessionM β} (hm : Steady m) (hk : ∀ a, Steady (k a)) :
    Steady (m >>= k) where
  confined h := by
    obtain ⟨a, s₁, hfirst, hrest⟩ := exists_of_bind_ok h
    exact (hm.confined hfirst).trans ((hk a).confined hrest)
  twins ht h := by
    obtain ⟨a, s₁, hfirst, hrest⟩ := exists_of_bind_ok h
    rcases hm.twins ht hfirst with hstray | ⟨t₁, hfirst', ht₁⟩
    · exact Or.inl (((hk a).confined hrest).stray hstray)
    · rcases (hk a).twins ht₁ hrest with hstray | ⟨t', hrest', ht'⟩
      · exact Or.inl hstray
      · exact Or.inr ⟨t', (bind_of_ok hfirst').trans hrest', ht'⟩

theorem bind_pure {m : SessionM α} (hm : Steady m) (f : α → β) :
    Steady (m >>= fun a => Pure.pure (f a)) := hm.bind fun a => pure (f a)

/-- A computation that looks at the handles first. -/
theorem of_handles {m : SessionM α} {k : Table Nat Handle → SessionM α}
    (hm : ∀ s : Session, m s = k s.handles s) (h : ∀ x, Steady (k x)) : Steady m where
  confined := by
    intro s s' a hrun
    rw [hm] at hrun
    exact (h _).confined hrun
  twins := by
    intro s t s' a ht hrun
    rw [hm] at hrun
    rcases (h _).twins ht hrun with hstray | ⟨t', hrun', ht'⟩
    · exact Or.inl hstray
    · refine Or.inr ⟨t', ?_, ht'⟩
      rw [hm, ← ht.handles, hrun']

theorem modify_handles (f : Table Nat Handle → Table Nat Handle) :
    Steady (modify fun s => { s with handles := f s.handles }) where
  confined h := by
    cases h
    exact .refl _
  twins ht h := by
    cases h
    exact Or.inr ⟨_, rfl, ht.left, ht.right, ht.medium, ht.registry, congrArg f ht.handles⟩

/-- What engines do with the same medium. -/
theorem onEngine {m : EStateM Fault (Engine RamDisk) α}
    (hconfined : ∀ {e e' : Engine RamDisk} {a}, m e = .ok a e' → Cached.Confined e.store e'.store)
    (htwins : ∀ {e f e' : Engine RamDisk} {a}, e.store.Coherent → f.store.Coherent →
      e.medium = f.medium → m e = .ok a e' → e'.store.Stray ∨
        ∃ f', m f = .ok a f' ∧ e'.store.Coherent ∧ f'.store.Coherent ∧ e'.medium = f'.medium) :
    Steady (Session.onEngine m) where
  confined h := hconfined (onEngine_eq_ok h).1
  twins := by
    intro s t s' a ht h
    obtain ⟨hrun, hs'⟩ := onEngine_eq_ok h
    rcases htwins ht.left ht.right ht.medium hrun with hs | ⟨f', hrun', he, hf, hmedium⟩
    · exact Or.inl hs
    · refine Or.inr ⟨{ t with engine := f' }, onEngine_of_ok hrun', he, hf, hmedium, ?_, ?_⟩
      · rw [hs']
        exact ht.registry
      · rw [hs']
        exact ht.handles

theorem script (p : Script α) : Steady (Session.script p) := by
  refine onEngine Engine.confined_run ?_
  intro e f e' a he hf hmedium hrun
  rcases Engine.eval_or_stray he hrun with ⟨heval, he'⟩ | hstray
  · obtain ⟨f', hrun', hf', hmedium'⟩ := Engine.run_of_eval_ok hf (hmedium ▸ heval)
    exact Or.inr ⟨f', hrun', he', hf', hmedium'.symm⟩
  · exact Or.inl hstray

theorem volume (v : VolumeM α) : Steady (Session.volume v) where
  confined h := Engine.confined_run (volume_eq_ok h).1
  twins := by
    intro s t s' a ht h
    obtain ⟨hrun, hhandles⟩ := volume_eq_ok h
    rcases Engine.eval_or_stray ht.left hrun with ⟨heval, hs'⟩ | hstray
    · rw [ht.registry, ht.medium] at heval
      obtain ⟨e, hrun', he, hmedium⟩ := Engine.run_of_eval_ok ht.right heval
      refine Or.inr
        ⟨{ t with engine := e, registry := s'.registry }, ?_, hs', he, hmedium.symm, rfl,
        hhandles.trans ht.handles⟩
      simp only [Session.volume, hrun']
    · exact Or.inl hstray

/-- What only concerns the free map. -/
theorem onMap (m : EStateM Fault FreeMap α) : Steady (Session.onEngine (Engine.onMap m)) := by
  refine onEngine (fun h => (Engine.onMap_eq_ok h).2 ▸ .refl _) ?_
  intro e f e' a he hf hmedium hrun
  obtain ⟨hmap, hstore⟩ := Engine.onMap_eq_ok hrun
  have hmaps : e.map = f.map := congrArg Medium.map hmedium
  refine Or.inr ⟨⟨f.store, e'.map⟩, ?_, hstore ▸ he, hf, ?_⟩
  · simp only [Engine.onMap, ← hmaps, hmap]
  · have hsize : e.store.size = f.store.size := congrArg Medium.size hmedium
    have hcontent : e.store.content = f.store.content := congrArg Medium.content hmedium
    simp only [Engine.medium, hstore, hsize, hcontent]

theorem flush : Steady (Session.onEngine (Engine.onStore Cached.flush)) := by
  refine onEngine (fun h => Cached.confined_flush (Engine.onStore_eq_ok h).1) ?_
  intro e f e' a he hf hmedium hrun
  obtain ⟨hflush, hmap⟩ := Engine.onStore_eq_ok hrun
  obtain ⟨c, hrun₁, hc, hsize₁, hcontent₁, -⟩ := Cached.exists_flush he
  obtain ⟨d, hrun₂, hd, hsize₂, hcontent₂, -⟩ := Cached.exists_flush hf
  rw [hflush, EStateM.Result.ok.injEq] at hrun₁
  obtain ⟨-, rfl⟩ := hrun₁
  have hsize : e.store.size = f.store.size := congrArg Medium.size hmedium
  have hcontent : e.store.content = f.store.content := congrArg Medium.content hmedium
  have hmaps : e.map = f.map := congrArg Medium.map hmedium
  refine Or.inr ⟨⟨d, f.map⟩, Engine.onStore_of_ok hrun₂, hc, hd, ?_⟩
  simp only [Engine.medium, hsize₁, hsize₂, hcontent₁, hcontent₂, hmap, hsize, hcontent, hmaps]

theorem alloc : Steady (Session.onEngine (Engine.alloc 1)) :=
  onMap fun m => .ok (m.alloc 1).1 (m.alloc 1).2

theorem closeHandle (k : Nat) (h : Handle) : Steady (Session.closeHandle k h) :=
  (modify_handles fun handles => handles.erase k).bind fun _ => volume h.close

theorem keep (k : Nat) (h : Handle) : Steady (Session.keep k h) := by
  refine of_handles (k := fun handles =>
    (modify fun s => { s with handles := s.handles.insert k h }) >>= fun _ =>
      (handles.get? k).elim (Pure.pure ()) fun old => Session.volume old.close) ?_ ?_
  · intro s
    have hget : (get : SessionM Session) s = .ok s s := rfl
    rw [Session.keep, bind_of_ok hget]
    cases s.handles.get? k <;> rfl
  · intro handles
    refine (modify_handles fun x => x.insert k h).bind fun _ => ?_
    cases handles.get? k with
    | none => exact pure ()
    | some old => exact volume old.close

theorem forM (f : β → SessionM Unit) (h : ∀ b, Steady (f b)) (bs : List β) :
    Steady (bs.forM f) := by
  induction bs with
  | nil => exact pure ()
  | cons b bs ih => exact (h b).bind fun _ => ih

theorem unmount : Steady Session.unmount :=
  of_handles (fun _ => rfl) fun handles =>
    Steady.bind (forM _ (fun (k, h) => closeHandle k h) handles.entries) fun _ => flush

theorem runHandle (k : Nat) (h : Handle) (step : HandleStep) :
    Steady (Session.runHandle k h step) := by
  cases step with
  | close => exact (closeHandle k h).bind_pure _
  | reopen copy =>
    exact (volume h.reopen).bind fun new => (volume new.openCount).bind fun count =>
      (keep copy new).bind_pure _
  | remove => exact (volume h.remove).bind_pure _
  | addChild => exact (script h.addChild).bind_pure _
  | removeChild => exact (script h.removeChild).bind_pure _
  | deny =>
    exact (volume h.deny).bind fun h => (modify_handles fun x => x.insert k h).bind_pure _
  | allow =>
    exact (volume h.allow).bind fun h => (modify_handles fun x => x.insert k h).bind_pure _
  | isRemoved => exact (volume h.isRemoved).bind_pure _
  | isDir => exact (script h.isDir).bind_pure _
  | isDenied => exact (volume h.isDenied).bind_pure _
  | inumber => exact pure _
  | openCount => exact (volume h.openCount).bind_pure _
  | length => exact (script h.length).bind_pure _
  | children => exact (script h.children).bind_pure _
  | sectorAt pos => exact (script (h.sectorAt? pos)).bind_pure _
  | read offset buffer => exact (script (h.readAt offset buffer.size)).bind_pure _
  | write offset data => exact (volume (h.writeAt offset data)).bind_pure _
  | resize length => exact (script (h.resize length)).bind_pure _

theorem make (length : Nat) (isDir : Bool) : Steady (Session.run (.make length isDir)) := by
  refine alloc.bind fun sector => ?_
  cases sector with
  | none => exact pure _
  | some sector => exact (script (Volume.create sector length isDir)).bind_pure _

theorem handle (k : Nat) (step : HandleStep) : Steady (Session.run (.handle k step)) := by
  refine of_handles (k := fun handles =>
    (handles.get? k).elim (Pure.pure .unknown) fun h => Session.runHandle k h step) ?_ ?_
  · intro s
    cases hk : s.handles.get? k with
    | none => exact run_handle_of_none hk step
    | some h => exact run_handle hk step
  · intro handles
    cases handles.get? k with
    | none => exact pure _
    | some h => exact runHandle k h step

theorem «open» (k : Nat) (sector : UInt32) : Steady (Session.run (.open k sector)) :=
  (volume (Volume.open sector)).bind fun h => (keep k h).bind_pure _

theorem openInodes : Steady (Session.run .openInodes) where
  confined h := by
    cases h
    exact .refl _
  twins := by
    intro s t s' a ht h
    cases h
    exact Or.inr ⟨t, by rw [ht.registry]; rfl, ht⟩

end Steady

end Session

end SectorVolume
