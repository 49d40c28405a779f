import SectorVolume.Proofs.Session.Changes

/-!
The steps on a handle. A session that shows a reference answers every step on a handle as the
reference does, where that says something, and shows what has become of the reference; where the
step is a fault there it is the same fault here.
-/

namespace SectorVolume

namespace Session

/-- The sectors of new files, as answers tell them. -/
def made : Answer → List UInt32
  | .created sector _ => [UInt32.ofNat sector]
  | _ => []

/-- A session did what a reference did. Files are made in the sectors that `names` begins with. -/
def Follows (reserved : Nat) (names : List UInt32) :
    Except Fault (Option Answer × Reference) → EStateM.Result Fault Session Answer → Prop
  | .ok (expected, r), .ok a s =>
    (∀ b, expected = some b → a = b) ∧ s.Shows reserved [] r ∧ names = made a ++ r.names
  | .error f, .error g _ => g = f
  | _, _ => False

section Follows

variable {reserved : Nat} {s : Session} {r : Reference} {a : Answer} {f : Fault}
  {result : EStateM.Result Fault Session Answer}

theorem follows_ok {names : List UInt32} (hresult : result = .ok a s) (hs : s.Shows reserved [] r)
    (hnames : names = made a ++ r.names) : Follows reserved names (.ok (some a, r)) result := by
  rw [hresult]
  exact ⟨fun b hb => Option.some.inj hb, hs, hnames⟩

/-- A step that is not specified, but is no fault either. -/
theorem follows_unsaid {names : List UInt32} (hresult : result = .ok a s)
    (hs : s.Shows reserved [] r) (hnames : names = made a ++ r.names) :
    Follows reserved names (.ok (none, r)) result := by
  rw [hresult]
  exact ⟨fun b hb => absurd hb (by simp), hs, hnames⟩

theorem follows_error {names : List UInt32} (hresult : result = .error f s) :
    Follows reserved names (.error f) result := by
  rw [hresult]
  exact rfl

theorem Follows.exists_ok {names : List UInt32} {expected : Option Answer}
    (h : Follows reserved names (.ok (expected, r)) result) :
    ∃ a s, result = .ok a s ∧ (∀ b, expected = some b → a = b) ∧ s.Shows reserved [] r ∧
      names = made a ++ r.names := by
  cases result with
  | error g s => exact False.elim h
  | ok a s => exact ⟨a, s, rfl, h⟩

end Follows

namespace Shows

variable {reserved : Nat} {s : Session} {r r' : Reference} {e : Engine RamDisk} {h : Handle}
  {k : Nat} {f : File}

/-- A change to the files, with all handles as they are. -/
theorem change_files (hs : s.Shows reserved [] r) (hkeeps : r.Keeps r')
    (hcoherent : e.store.Coherent) (hholds : e.medium.Holds reserved r'.files.get?)
    (hspace : e.map.space = r'.space) : Shows reserved [] { s with engine := e } r' where
  coherent := hcoherent
  holds := hholds
  space := hspace
  handles := hs.handles.trans hkeeps.handles.symm
  sorted := by
    rw [hkeeps.handles]
    exact hs.sorted
  counts := by
    rw [Reference.opened, hkeeps.handles]
    exact hs.counts.congr_removed fun x _ => hkeeps.removed x
  live h hmem := by
    rw [Reference.opened, hkeeps.handles] at hmem
    exact hkeeps.live _ (hs.live h hmem)
  removed_opened x hx := by
    rw [hkeeps.removed] at hx
    rw [Reference.opened, hkeeps.handles]
    exact hs.removed_opened x hx

/-- Where the engine shows the same medium nothing has changed. -/
theorem same_medium (hs : s.Shows reserved [] r) (hcoherent : e.store.Coherent)
    (hmedium : e.medium = s.engine.medium) : Shows reserved [] { s with engine := e } r :=
  hs.change_registry hcoherent hmedium hs.counts (by simp) hs.removed_opened

/-- A new handle is counted before it is kept. -/
theorem counted {x : UInt32} (hs : s.Shows reserved [] r) (hx : (r.files.get? x).isSome)
    {e : Engine RamDisk} {g : Registry} (hcoherent : e.store.Coherent)
    (hmedium : e.medium = s.engine.medium)
    (hcounts : g.Counts (⟨x, false⟩ :: r.opened) r.removed) :
    Shows reserved [⟨x, false⟩] { s with engine := e, registry := g } r := by
  refine hs.change_registry hcoherent hmedium hcounts ?_ ?_
  · intro h hmem
    rw [List.mem_singleton.1 hmem]
    exact hx
  · intro y hy
    have hne : openers r.opened y ≠ 0 := hs.removed_opened y hy
    rw [List.singleton_append, openers_cons]
    omega

section Handle

variable (hs : s.Shows reserved [] r) (hk : r.handles.get? k = some h)

include hs hk

/-- The handle under a number in place of itself, with or without its denial. -/
theorem replace {g : Registry} {b : Bool} (hcoherent : e.store.Coherent)
    (hmedium : e.medium = s.engine.medium)
    (hcounts : g.Counts ({ h with denies := b } :: (r.handles.erase k).entries.map Prod.snd)
      r.removed) :
    Shows reserved [] { s with
      engine := e
      registry := g
      handles := s.handles.insert k { h with denies := b } }
      { r with handles := r.handles.insert k { h with denies := b } } := by
  have hperm : ([] ++ r.opened).Perm ([h] ++ (r.handles.erase k).entries.map Prod.snd) :=
    hs.perm_opened hk
  have hdropped := hs.perm (hs.sorted.erase k) hperm
  have hlive : ∀ h' ∈ [{ h with denies := b }], (r.files.get? h'.sector).isSome := by
    intro h' hmem
    rw [List.mem_singleton.1 hmem]
    exact hs.live h (mem_opened hk)
  have hremoved : ∀ x, r.removed x = true →
      openers ([{ h with denies := b }] ++ (r.handles.erase k).entries.map Prod.snd) x ≠ 0 := by
    intro x hx
    have hne := hdropped.removed_opened x hx
    rw [List.singleton_append, openers_cons] at hne ⊢
    exact hne
  have hchanged := hdropped.change_registry hcoherent hmedium hcounts hlive hremoved
  have hperm' : ([{ h with denies := b }] ++ (r.handles.erase k).entries.map Prod.snd).Perm
      ([] ++ (r.handles.insert k { h with denies := b }).entries.map Prod.snd) :=
    ((hs.sorted.perm_insert k { h with denies := b }).map Prod.snd).symm
  rw [hs.handles]
  exact hchanged.perm (hs.sorted.insert k _) hperm'

end Handle

section Queries

variable {β : Type} {b : β}

/-- A script that only looks. -/
theorem follows_script (hs : s.Shows reserved [] r) {p : Script β}
    (heval : p.eval s.engine.medium = .ok (b, s.engine.medium)) (answer : β → Answer)
    (hmade : made (answer b) = []) :
    Follows reserved r.names (.ok (some (answer b), r))
      ((script p >>= fun b => pure (answer b)) s) := by
  obtain ⟨e, hscript, hcoherent, hmedium⟩ := script_of_eval_ok hs.coherent heval
  refine follows_ok ((bind_of_ok hscript).trans rfl) (hs.same_medium hcoherent hmedium) ?_
  rw [hmade, List.nil_append]

theorem follows_script_unsaid (hs : s.Shows reserved [] r) {p : Script β}
    (heval : p.eval s.engine.medium = .ok (b, s.engine.medium)) (answer : β → Answer)
    (hmade : made (answer b) = []) :
    Follows reserved r.names (.ok (none, r)) ((script p >>= fun b => pure (answer b)) s) := by
  obtain ⟨e, hscript, hcoherent, hmedium⟩ := script_of_eval_ok hs.coherent heval
  refine follows_unsaid ((bind_of_ok hscript).trans rfl) (hs.same_medium hcoherent hmedium) ?_
  rw [hmade, List.nil_append]

/-- An operation on a handle that only looks. -/
theorem follows_volume (hs : s.Shows reserved [] r) {v : VolumeM β}
    (hgives : VolumeM.Gives v s.registry s.engine.medium b s.registry s.engine.medium)
    (answer : β → Answer) (hmade : made (answer b) = []) :
    Follows reserved r.names (.ok (some (answer b), r))
      ((volume v >>= fun b => pure (answer b)) s) := by
  obtain ⟨e, hvolume, hcoherent, hmedium⟩ := volume_of_gives hs.coherent hgives
  refine follows_ok ((bind_of_ok hvolume).trans rfl) (hs.same_medium hcoherent hmedium) ?_
  rw [hmade, List.nil_append]

end Queries

end Shows

end Session

namespace Reference

variable (r : Reference) (k : Nat) (h : Handle)

@[simp] theorem names_closeHandle : (r.closeHandle k h).names = r.names := by
  rw [closeHandle, names_reclaim]

@[simp] theorem names_keep : (r.keep k h).names = r.names := by
  rw [keep]
  split
  · rfl
  · rw [names_reclaim]

end Reference

namespace Session

section Steps

variable {reserved : Nat} {s : Session} {r : Reference} {h : Handle} {k : Nat} {f : File}

variable (hs : s.Shows reserved [] r) (hk : r.handles.get? k = some h)
  (hf : r.files.get? h.sector = some f)

include hs hk

theorem follows_close :
    Follows reserved r.names (r.runHandle k h f .close) (runHandle k h .close s) := by
  obtain ⟨s', hclose, hs'⟩ := hs.closeHandle hk
  refine follows_ok ((bind_of_ok hclose).trans rfl) hs' ?_
  rw [Reference.names_closeHandle]
  rfl

/-- A further handle on a file, and how many there are with it. -/
theorem exists_reopen : ∃ s₁ s₂,
    volume h.reopen s = .ok ⟨h.sector, false⟩ s₁ ∧
    volume (Handle.openCount ⟨h.sector, false⟩) s₁ = .ok (openers r.opened h.sector + 1) s₂ ∧
    s₂.Shows reserved [⟨h.sector, false⟩] r ∧ s₂.engine.medium = s.engine.medium ∧
    s₂.handles = s.handles := by
  have hmem := Shows.mem_opened hk
  have hlive := hs.live h hmem
  have hcounts : s.registry.Counts r.opened r.removed := hs.counts
  obtain ⟨g, hgives, hcounts'⟩ := gives_reopen (d := s.engine.medium) hcounts hmem
  obtain ⟨e, hvolume, hcoherent, hmedium⟩ := volume_of_gives hs.coherent hgives
  have hopened := hs.counted hlive hcoherent hmedium hcounts'
  have hgives' := gives_openCount (h := ⟨h.sector, false⟩) (d := e.medium) hcounts'
    List.mem_cons_self
  rw [openers_cons, if_pos rfl] at hgives'
  obtain ⟨e', hvolume', hcoherent', hmedium'⟩ := volume_of_gives hopened.coherent hgives'
  have hcounted := hopened.change_registry hcoherent' hmedium' hcounts'
    (fun h' hmem' => hopened.live h' (List.mem_append_left _ hmem')) hopened.removed_opened
  exact ⟨_, _, hvolume, hvolume', hcounted, hmedium'.trans hmedium, rfl⟩

theorem follows_reopen (copy : Nat) :
    Follows reserved r.names (r.runHandle k h f (.reopen copy))
      (runHandle k h (.reopen copy) s) := by
  obtain ⟨s₁, s₂, hreopen, hcount, hs₂, -⟩ := exists_reopen hs hk
  obtain ⟨s', hkeep, hs'⟩ := hs₂.keep (k := copy)
  have hrun : runHandle k h (.reopen copy) s = .ok (.number (openers r.opened h.sector + 1)) s' :=
    (bind_of_ok hreopen).trans ((bind_of_ok hcount).trans ((bind_of_ok hkeep).trans rfl))
  refine follows_ok hrun hs' ?_
  rw [Reference.names_keep]
  rfl

theorem follows_remove (hf : r.files.get? h.sector = some f) :
    Follows reserved r.names (r.runHandle k h f .remove) (runHandle k h .remove s) := by
  have hmem := Shows.mem_opened hk
  obtain ⟨g, hgives, hcounts⟩ := gives_remove (d := s.engine.medium) hs.counts hmem
  obtain ⟨e, hvolume, hcoherent, hmedium⟩ := volume_of_gives hs.coherent hgives
  have hholds := hs.holds.mark hf true
  rw [← hmedium, ← Table.get?_insert_eq_update] at hholds
  have hremoved : ∀ x, Reference.removed
      { r with files := r.files.insert h.sector { f with removed := true } } x =
        if x = h.sector then true else r.removed x := by
    intro x
    simp only [Reference.removed, Table.get?_insert]
    split <;> rfl
  refine follows_ok ((bind_of_ok hvolume).trans rfl) {
    coherent := hcoherent
    holds := hholds
    space := ?_
    handles := hs.handles
    sorted := hs.sorted
    counts := hcounts.congr_removed fun x _ => hremoved x
    live := ?_
    removed_opened := ?_
  } rfl
  · have hmap : e.map = s.engine.map := congrArg Medium.map hmedium
    change e.map.space = r.space
    rw [hmap]
    exact hs.space
  · intro h' hmem'
    simp only [Table.get?_insert]
    split
    · rfl
    · exact hs.live h' hmem'
  · intro x hx
    rw [hremoved] at hx
    split at hx
    · rename_i hxh
      rw [hxh]
      exact openers_ne_zero hmem
    · exact hs.removed_opened x hx

theorem follows_deny :
    Follows reserved r.names (r.runHandle k h f .deny) (runHandle k h .deny s) := by
  cases hdenies : h.denies with
  | false =>
    have hcounts := hs.counts.perm (hs.perm_opened hk)
    obtain ⟨g, hgives, hcounts'⟩ := gives_deny (d := s.engine.medium) hcounts hdenies
    obtain ⟨e, hvolume, hcoherent, hmedium⟩ := volume_of_gives hs.coherent hgives
    have hs' := hs.replace hk hcoherent hmedium hcounts'
    rw [Reference.runHandle, if_neg (by simp [hdenies])]
    exact follows_ok ((bind_of_ok hvolume).trans rfl) hs' rfl
  | true =>
    obtain ⟨s', hvolume⟩ := volume_of_fails hs.coherent (by decide)
      (fails_deny (g := s.registry) (d := s.engine.medium) hdenies)
    rw [Reference.runHandle, if_pos hdenies]
    exact follows_error (bind_of_error hvolume)

theorem follows_allow :
    Follows reserved r.names (r.runHandle k h f .allow) (runHandle k h .allow s) := by
  cases hdenies : h.denies with
  | true =>
    have hcounts := hs.counts.perm (hs.perm_opened hk)
    obtain ⟨g, hgives, hcounts'⟩ := gives_allow (d := s.engine.medium) hcounts hdenies
    obtain ⟨e, hvolume, hcoherent, hmedium⟩ := volume_of_gives hs.coherent hgives
    have hs' := hs.replace hk hcoherent hmedium hcounts'
    rw [Reference.runHandle, if_pos hdenies]
    exact follows_ok ((bind_of_ok hvolume).trans rfl) hs' rfl
  | false =>
    obtain ⟨s', hvolume⟩ := volume_of_fails hs.coherent (by decide)
      (fails_allow (g := s.registry) (d := s.engine.medium) hdenies)
    rw [Reference.runHandle, if_neg (by simp [hdenies])]
    exact follows_error (bind_of_error hvolume)

omit hk

include hf

/-- The number of children is counted in the sector of the inode. -/
theorem exists_updateChildren {n : Inode} (hn : s.engine.medium.Stores h.sector n f)
    {count : UInt32 → Except Fault UInt32} {children : UInt32}
    (hcount : count n.children = .ok children) :
    ∃ s', script (h.updateChildren count) s = .ok () s' ∧ s'.Shows reserved []
      { r with files := r.files.insert h.sector { f with children := children.toNat } } := by
  have heval := Handle.eval_updateChildren_of_ok hn.hasInode hcount
  obtain ⟨e, hscript, hcoherent, hmedium⟩ := script_of_eval_ok hs.coherent heval
  have hholds := hs.holds.setChildren hf hn children
  rw [← hmedium, ← Table.get?_insert_eq_update] at hholds
  have hmark : ({ f with children := children.toNat } : File).removed = r.removed h.sector :=
    (Reference.removed_of_get? hf).symm
  have hmap : e.map = s.engine.map := congrArg Medium.map hmedium
  refine ⟨_, hscript, hs.change_files (Reference.keeps_insert hmark r.space r.names) hcoherent
    hholds ?_⟩
  rw [hmap]
  exact hs.space

theorem follows_addChild :
    Follows reserved r.names (r.runHandle k h f .addChild) (runHandle k h .addChild s) := by
  obtain ⟨n, hn⟩ := hs.holds.stores h.sector f hf
  have hchildren := hn.children_eq
  by_cases hroom : f.children + 1 < UInt32.size
  · have hcount : (if n.children.toNat + 1 < UInt32.size then .ok (n.children + 1)
        else .error .overflow : Except Fault UInt32) = .ok (n.children + 1) := by
      rw [if_pos (by rw [hchildren]; exact hroom)]
    obtain ⟨s', hscript, hs'⟩ : ∃ s', script h.addChild s = .ok () s' ∧ _ :=
      exists_updateChildren hs hf hn hcount
    have hnext : (n.children + 1).toNat = f.children + 1 := by
      rw [UInt32.toNat_add, hchildren]
      exact Nat.mod_eq_of_lt hroom
    rw [hnext] at hs'
    rw [Reference.runHandle, if_pos hroom]
    exact follows_ok ((bind_of_ok hscript).trans rfl) hs' rfl
  · have hcount : (if n.children.toNat + 1 < UInt32.size then .ok (n.children + 1)
        else .error .overflow : Except Fault UInt32) = .error .overflow := by
      rw [if_neg (by rw [hchildren]; exact hroom)]
    have heval : h.addChild.eval s.engine.medium = .error .overflow :=
      Handle.eval_updateChildren_of_error hn.hasInode hcount
    obtain ⟨s', hscript⟩ := script_of_eval_error hs.coherent (by decide) heval
    rw [Reference.runHandle, if_neg hroom]
    exact follows_error (bind_of_error hscript)

theorem follows_removeChild :
    Follows reserved r.names (r.runHandle k h f .removeChild) (runHandle k h .removeChild s) := by
  obtain ⟨n, hn⟩ := hs.holds.stores h.sector f hf
  have hchildren := hn.children_eq
  have hzero : n.children = 0 ↔ f.children = 0 := by
    rw [← hchildren, ← UInt32.toNat_inj]
    rfl
  by_cases hnone : f.children = 0
  · have hcount : (if n.children = 0 then .error .noChild else .ok (n.children - 1) :
        Except Fault UInt32) = .error .noChild := by
      rw [if_pos (hzero.2 hnone)]
    have heval : h.removeChild.eval s.engine.medium = .error .noChild :=
      Handle.eval_updateChildren_of_error hn.hasInode hcount
    obtain ⟨s', hscript⟩ := script_of_eval_error hs.coherent (by decide) heval
    rw [Reference.runHandle, if_pos hnone]
    exact follows_error (bind_of_error hscript)
  · have hcount : (if n.children = 0 then .error .noChild else .ok (n.children - 1) :
        Except Fault UInt32) = .ok (n.children - 1) := by
      rw [if_neg fun heq => hnone (hzero.1 heq)]
    obtain ⟨s', hscript, hs'⟩ : ∃ s', script h.removeChild s = .ok () s' ∧ _ :=
      exists_updateChildren hs hf hn hcount
    have hnext : (n.children - 1).toNat = f.children - 1 := by
      rw [← hchildren]
      apply UInt32.toNat_sub_of_le
      rw [UInt32.le_iff_toNat_le, hchildren]
      exact Nat.pos_of_ne_zero hnone
    rw [hnext] at hs'
    rw [Reference.runHandle, if_neg hnone]
    exact follows_ok ((bind_of_ok hscript).trans rfl) hs' rfl

theorem follows_write (offset : Nat) (data : Array UInt8) :
    Follows reserved r.names (r.runHandle k h f (.write offset data))
      (runHandle k h (.write offset data) s) := by
  have hdenials : (s.registry.entry h.sector).denials = denials r.opened h.sector :=
    hs.counts.denials_entry h.sector
  obtain ⟨d', hgives, hholds, hspace⟩ :=
    hs.holds.writeAt hs.space hf hdenials offset data
  obtain ⟨e, hvolume, hcoherent, rfl⟩ := volume_of_gives hs.coherent hgives
  obtain ⟨hkeeps, hnames⟩ := Reference.keeps_write hf offset data
  have hs' := hs.change_files hkeeps hcoherent hholds hspace
  exact follows_ok ((bind_of_ok hvolume).trans rfl) hs' hnames.symm

theorem follows_resize (length : Nat) :
    Follows reserved r.names (r.runHandle k h f (.resize length))
      (runHandle k h (.resize length) s) := by
  obtain ⟨n, hn⟩ := hs.holds.stores h.sector f hf
  obtain ⟨result, d', heval, hresult, hholds, hspace, _⟩ := hs.holds.resize hs.space hf hn length
  obtain ⟨e, hscript, hcoherent, rfl⟩ :=
    script_of_eval_ok hs.coherent (Handle.eval_resize hn.hasInode heval)
  rw [hresult] at hscript
  have hs' := hs.change_files (Reference.keeps_resize hf length) hcoherent hholds hspace
  exact follows_ok ((bind_of_ok hscript).trans rfl) hs' (Reference.names_resize ..).symm

/-- The sector of a byte is not specified, but asking for it is no fault. -/
theorem follows_sectorAt (pos : Nat) :
    Follows reserved r.names (r.runHandle k h f (.sectorAt pos))
      (runHandle k h (.sectorAt pos) s) := by
  obtain ⟨n, hn⟩ := hs.holds.stores h.sector f hf
  obtain ⟨place, heval⟩ : ∃ place,
      (n.sectorAt? pos).eval s.engine.medium = .ok (place, s.engine.medium) := by
    rcases Nat.lt_or_ge pos n.length.toNat with hin | hout
    · refine ⟨_, Inode.eval_sectorAt?_of_lt hn.placed.exists_node ?_ hin⟩
      rw [hn.length_eq]
      exact hn.length_le
    · exact ⟨_, Inode.eval_sectorAt?_of_le hout⟩
  exact hs.follows_script_unsaid (Handle.eval_sectorAt? hn.hasInode heval)
    (fun place => .number? (place.map UInt32.toNat)) rfl

include hk

/-- Every step on a handle that is kept. -/
theorem follows_runHandle (step : HandleStep) :
    Follows reserved r.names (r.runHandle k h f step) (runHandle k h step s) := by
  obtain ⟨n, hn⟩ := hs.holds.stores h.sector f hf
  have hmem := Shows.mem_opened hk
  have hmark := Reference.removed_of_get? hf
  have hcounts : s.registry.Counts r.opened r.removed := hs.counts
  cases step with
  | close => exact follows_close hs hk
  | reopen copy => exact follows_reopen hs hk copy
  | remove => exact follows_remove hs hk hf
  | addChild => exact follows_addChild hs hf
  | removeChild => exact follows_removeChild hs hf
  | deny => exact follows_deny hs hk
  | allow => exact follows_allow hs hk
  | isRemoved =>
    have hgives := gives_isRemoved (d := s.engine.medium) hcounts hmem
    rw [hmark] at hgives
    exact hs.follows_volume hgives .flag rfl
  | isDir =>
    have heval := Handle.eval_isDir hn.hasInode
    rw [hn.isDir_eq] at heval
    exact hs.follows_script heval .flag rfl
  | isDenied => exact hs.follows_volume (gives_isDenied hcounts) .flag rfl
  | inumber => exact follows_ok rfl hs rfl
  | openCount => exact hs.follows_volume (gives_openCount hcounts hmem) .number rfl
  | length =>
    have heval := Handle.eval_length hn.hasInode
    rw [hn.length_eq] at heval
    exact hs.follows_script heval .number rfl
  | children =>
    have heval := Handle.eval_children hn.hasInode
    rw [hn.children_eq] at heval
    exact hs.follows_script heval .number rfl
  | sectorAt pos => exact follows_sectorAt hs hf pos
  | read offset buffer =>
    have heval := Handle.eval_readAt hn.hasInode (hn.eval_readAt offset buffer.size)
    exact hs.follows_script heval (fun data => overBuffer data buffer) rfl
  | write offset data => exact follows_write hs hf offset data
  | resize length => exact follows_resize hs hf length

end Steps

end Session

end SectorVolume
