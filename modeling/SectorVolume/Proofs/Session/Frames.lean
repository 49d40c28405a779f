import SectorVolume.Proofs.Session.Growth
import SectorVolume.Proofs.Session.Refused
import SectorVolume.Proofs.Session.Remounted
import SectorVolume.Proofs.Session.Still
import SectorVolume.Proofs.Volume.Spares

/-!
What a step on files does to the sectors of one file. Most steps change no byte at all. A new file
is made in sectors that were free, and a step through a handle changes sectors of the file that
the handle is on, and free ones.
-/

namespace SectorVolume

/-- Makes a file, or changes one. -/
def Step.changes : Step → Bool
  | .make _ _ => true
  | .handle _ step => step.changes
  | _ => false

theorem Handle.exists_of_updateChildren {h : Handle} {n : Inode} {d d' : Medium}
    {count : UInt32 → Except Fault UInt32} (hn : d.HasInode h.sector n)
    (heval : (h.updateChildren count).eval d = .ok ((), d')) :
    ∃ children, d' = d.put h.sector { n with children }.toSector := by
  cases hcount : count n.children with
  | error f =>
    rw [eval_updateChildren_of_error hn hcount] at heval
    cases heval
  | ok children =>
    rw [eval_updateChildren_of_ok hn hcount] at heval
    cases heval
    exact ⟨children, rfl⟩

namespace Session

section Decided

variable {α : Type} {s s' : Session} {a : α} (hc : s.engine.store.Coherent)
  (hc' : s'.engine.store.Coherent)

include hc hc'

/-- What a script has done is what the medium says. -/
theorem eval_of_script_ok {p : Script α} (h : script p s = .ok a s') :
    p.eval s.engine.medium = .ok (a, s'.engine.medium) := by
  rcases Engine.eval_or_stray hc (onEngine_eq_ok h).1 with ⟨heval, -⟩ | hstray
  · exact heval
  · exact absurd hstray hc'.not_stray

theorem gives_of_volume_ok {v : VolumeM α} (h : volume v s = .ok a s') :
    VolumeM.Gives v s.registry s.engine.medium a s'.registry s'.engine.medium := by
  rcases Engine.eval_or_stray hc (volume_eq_ok h).1 with ⟨heval, -⟩ | hstray
  · exact heval
  · exact absurd hstray hc'.not_stray

end Decided

namespace Shows

variable {s s' : Session} {r : Reference} {reserved : Nat} {step : Step} {a : Answer} {x : UInt32}

/-- The disk is up to date when another cache is put in front of it. -/
theorem content_of_remount (hs : s.Shows reserved [] r) {capacity : Nat}
    (hrun : run (.remount capacity) s = .ok a s') :
    s'.engine.store.content = s.engine.store.content := by
  obtain ⟨s₁, hunmount, hs₁, -, -, hdisk⟩ := exists_unmount hs
  have hsame := Still.unmount.content_eq hs.coherent hs₁.coherent hunmount
  obtain ⟨b, hsummary, -⟩ := run_summary s₁
  rw [run, bind_of_ok hunmount, bind_of_ok hsummary] at hrun
  rcases Nat.eq_zero_or_pos capacity with rfl | hpos
  · cases hrun
  · rw [bind_of_ok (mount_eq_ok hpos s₁)] at hrun
    cases hrun
    exact (Cached.content_remounted hs₁.coherent hdisk capacity hpos).trans hsame

/-- Steps that change no byte of any sector. -/
theorem content_of_run (hs : s.Shows reserved [] r) (hc' : s'.engine.store.Coherent)
    (hadmits : r.admits step = true) (hquiet : step.changes = false)
    (hrun : run step s = .ok a s') : s'.engine.store.content = s.engine.store.content := by
  cases step with
  | make length isDir => cases hquiet
  | «open» k x => exact (Still.open k x).content_eq hs.coherent hc' hrun
  | openInodes => exact Still.openInodes.content_eq hs.coherent hc' hrun
  | flush => exact (Still.flush.bind_pure _).content_eq hs.coherent hc' hrun
  | remount capacity => exact hs.content_of_remount hrun
  | handle k action =>
    cases hk : s.handles.get? k with
    | none =>
      rw [run_handle_of_none hk] at hrun
      cases hrun
      rfl
    | some h =>
      rw [run_handle hk] at hrun
      exact (Still.runHandle k h hquiet).content_eq hs.coherent hc' hrun
  | summary =>
    cases hrun
    rfl
  | map action => exact (Still.onMap action.run).content_eq hs.coherent hc' hrun
  | _ => exact absurd hadmits (by simp [Reference.admits])

/-- A new file leaves all others alone. -/
theorem spares_of_make (hs : s.Shows reserved [] r) (hc' : s'.engine.store.Coherent)
    {length : Nat} {isDir : Bool} (hx : (r.files.get? x).isSome)
    (hrun : run (.make length isDir) s = .ok a s') :
    Medium.Spares x s.engine.medium s'.engine.medium ∧ x ∉ made a := by
  obtain ⟨sector, s₁, halloc, hrest⟩ := exists_of_bind_ok hrun
  cases hsupply : s.engine.medium.map.supply with
  | nil =>
    have hnone : onEngine (Engine.alloc 1) s =
        .ok none { s with engine := ⟨s.engine.store, s.engine.map.refuse⟩ } := by
      apply onEngine_of_ok
      have hmap : s.engine.map.alloc 1 = (none, s.engine.map.refuse) :=
        FreeMap.alloc_of_supply_nil hsupply
      simp only [Engine.alloc, hmap]
    rw [hnone] at halloc
    cases halloc
    cases hrest
    exact ⟨fun _ _ => rfl, by simp [made]⟩
  | cons y rest =>
    have hsome : onEngine (Engine.alloc 1) s =
        .ok (some y) { s with engine := ⟨s.engine.store, s.engine.map.grant y⟩ } := by
      apply onEngine_of_ok
      have hmap : s.engine.map.alloc 1 = (some y, s.engine.map.grant y) :=
        FreeMap.alloc_of_supply_cons hsupply _ hs.holds.within
      simp only [Engine.alloc, hmap]
    rw [hsome] at halloc
    cases halloc
    obtain ⟨result, s₂, hscript, hlast⟩ := exists_of_bind_ok hrest
    cases hlast
    obtain ⟨hexists, -, hstores, -⟩ := hs.holds.make hsupply isDir rfl
    obtain ⟨refused, d', heval, -⟩ := Inode.eval_resize hstores.placed length
    have hcreate := Volume.eval_create
      (d := Engine.medium ⟨s.engine.store, s.engine.map.grant y⟩) hexists heval
    have hcoherent : ({ s with engine := ⟨s.engine.store, s.engine.map.grant y⟩ } :
        Session).engine.store.Coherent := hs.coherent
    rw [eval_of_script_ok hcoherent hc' hscript] at hcreate
    cases hcreate
    obtain ⟨hspares, hne⟩ := hs.holds.make_spares hx hsupply heval
    exact ⟨hspares, by simpa [made] using hne⟩

/-- Counting children writes the inode, with another number of them. -/
theorem exists_put_of_count (hs : s.Shows reserved [] r) (hc' : s'.engine.store.Coherent)
    {k : Nat}
    {h : Handle} (hk : s.handles.get? k = some h) {action : HandleStep}
    (hcount : action = .addChild ∨ action = .removeChild)
    (hrun : runHandle k h action s = .ok a s') :
    ∃ children, s'.engine.medium =
      s.engine.medium.put h.sector { s.inodeAt h.sector with children }.toSector := by
  obtain ⟨-, f, -, hn⟩ := hs.exists_file hk
  rcases hcount with rfl | rfl
  all_goals
    obtain ⟨_, s₁, hscript, hrest⟩ := exists_of_bind_ok hrun
    cases hrest
    exact Handle.exists_of_updateChildren hn.hasInode (eval_of_script_ok hs.coherent hc' hscript)

/-- A step through a handle leaves the other files alone. -/
theorem spares_of_runHandle (hs : s.Shows reserved [] r) (hc' : s'.engine.store.Coherent)
    {k : Nat}
    {h : Handle} (hk : s.handles.get? k = some h) (hx : (r.files.get? x).isSome)
    (hne : x ≠ h.sector) {action : HandleStep} (hchanges : action.changes = true)
    (hrun : runHandle k h action s = .ok a s') :
    Medium.Spares x s.engine.medium s'.engine.medium := by
  obtain ⟨-, f, hf, hn⟩ := hs.exists_file hk
  have hy : (r.files.get? h.sector).isSome := by
    rw [hf]
    rfl
  cases action with
  | addChild =>
    obtain ⟨children, hput⟩ := hs.exists_put_of_count hc' hk (Or.inl rfl) hrun
    exact hput ▸ hs.holds.put_spares hx hy hne _
  | removeChild =>
    obtain ⟨children, hput⟩ := hs.exists_put_of_count hc' hk (Or.inr rfl) hrun
    exact hput ▸ hs.holds.put_spares hx hy hne _
  | write offset data =>
    obtain ⟨written, s₁, hvolume, hrest⟩ := exists_of_bind_ok hrun
    cases hrest
    exact hs.holds.writeAt_spares hs.space hx hf hne (gives_of_volume_ok hs.coherent hc' hvolume)
  | resize length =>
    obtain ⟨result, s₁, hscript, hrest⟩ := exists_of_bind_ok hrun
    cases hrest
    obtain ⟨resized, d', heval, -⟩ := Inode.eval_resize hn.placed length
    have hresize := Handle.eval_resize hn.hasInode heval
    rw [eval_of_script_ok hs.coherent hc' hscript] at hresize
    cases hresize
    exact hs.holds.resize_spares hx hf hn hne heval
  | _ => cases hchanges

/-- Any step but one through a handle on the file. -/
theorem spares_of_run (hs : s.Shows reserved [] r) (hc' : s'.engine.store.Coherent)
    (hadmits : r.admits step = true) (hx : (r.files.get? x).isSome)
    (hother : ∀ k h action, step = .handle k action → s.handles.get? k = some h →
      action.changes = true → x ≠ h.sector)
    (hrun : run step s = .ok a s') : Medium.Spares x s.engine.medium s'.engine.medium := by
  have hquiet : step.changes = false → Medium.Spares x s.engine.medium s'.engine.medium :=
    fun h t _ => congrFun (hs.content_of_run hc' hadmits h hrun) t
  cases step with
  | make length isDir => exact (hs.spares_of_make hc' hx hrun).1
  | handle k action =>
    cases hchanges : action.changes with
    | false => exact hquiet hchanges
    | true =>
      cases hk : s.handles.get? k with
      | none =>
        rw [run_handle_of_none hk] at hrun
        cases hrun
        exact Medium.Spares.refl x _
      | some h =>
        rw [run_handle hk] at hrun
        exact hs.spares_of_runHandle hc' hk hx (hother k h action rfl hk hchanges) hchanges hrun
  | _ => exact hquiet rfl

end Shows

end Session

end SectorVolume
