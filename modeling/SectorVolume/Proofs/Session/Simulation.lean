import SectorVolume.Proofs.Session.Handles

/-!
A session follows its reference. Every step that the reference knows is answered as the reference
answers it, and the session shows what the reference has become; so do runs of any length.
-/

namespace SectorVolume

namespace Session

variable {α : Type} {reserved : Nat} {s : Session} {r : Reference}

theorem onEngine_of_ok {m : EStateM Fault (Engine RamDisk) α} {a : α} {e : Engine RamDisk}
    (h : m s.engine = .ok a e) : onEngine m s = .ok a { s with engine := e } := by
  simp only [onEngine, h]

theorem run_summary (s : Session) : ∃ a, summary s = .ok a s ∧ made a = [] := ⟨_, rfl, rfl⟩

namespace Shows

/-- Closing the handles one after the other. -/
theorem closeAll {entries : List (Nat × Handle)} (hentries : r.handles.entries = entries)
    (hs : s.Shows reserved [] r) :
    ∃ s', (entries.forM fun (number, h) => Session.closeHandle number h) s = .ok () s' ∧
      s'.Shows reserved [] (entries.foldl (fun r e => r.closeHandle e.1 e.2) r) ∧
      (entries.foldl (fun r e => r.closeHandle e.1 e.2) r).opened = [] ∧
      (entries.foldl (fun r e => r.closeHandle e.1 e.2) r).names = r.names := by
  induction entries generalizing s r with
  | nil =>
    exact ⟨s, rfl, hs, by rw [List.foldl_nil, Reference.opened, hentries, List.map_nil], rfl⟩
  | cons e rest ih =>
    obtain ⟨k, h⟩ := e
    have htable : r.handles = ⟨(k, h) :: rest⟩ := by rw [← hentries]
    have hk : r.handles.get? k = some h := by
      rw [htable]
      simp [Table.get?]
    have hrest : (r.closeHandle k h).handles.entries = rest := by
      have hsorted := hs.sorted
      rw [htable] at hsorted
      rw [Reference.closeHandle, Reference.handles_reclaim, htable, hsorted.erase_head]
    obtain ⟨s₁, hclose, hs₁⟩ := hs.closeHandle hk
    obtain ⟨s', hall, hs', hnone, hnames⟩ := ih hrest hs₁
    rw [Reference.names_closeHandle] at hnames
    refine ⟨s', ?_, hs', hnone, hnames⟩
    change (Session.closeHandle k h >>= fun _ => rest.forM _) s = _
    rw [bind_of_ok hclose]
    exact hall

/-- A flush brings the disk up to date and changes nothing else. -/
theorem flush (hs : s.Shows reserved [] r) :
    ∃ e, onEngine (Engine.onStore Cached.flush) s = .ok () { s with engine := e } ∧
      Shows reserved [] { s with engine := e } r ∧
      ∀ t : UInt32, t.toNat < e.store.size →
        e.store.disk.device.sectors[t.toNat]? = some (e.store.content t) := by
  obtain ⟨c, hflush, hcoherent, hsize, hcontent, hdisk⟩ := Cached.exists_flush hs.coherent
  have hmedium : Engine.medium ⟨c, s.engine.map⟩ = s.engine.medium := by
    simp only [Engine.medium, hsize, hcontent]
  exact ⟨_, onEngine_of_ok (Engine.onStore_of_ok hflush), hs.same_medium hcoherent hmedium, hdisk⟩

/-- Another cache in front of a disk that is up to date. All handles are closed by then. -/
theorem mount (hs : s.Shows reserved [] r) (hopened : r.opened = []) {capacity : Nat}
    (hcapacity : 0 < capacity) (hdisk : ∀ t : UInt32, t.toNat < s.engine.store.size →
      s.engine.store.disk.device.sectors[t.toNat]? = some (s.engine.store.content t)) :
    ∃ s', Session.mount capacity s = .ok () s' ∧ s'.Shows reserved [] r := by
  have hcontent := Cached.content_remounted hs.coherent hdisk capacity hcapacity
  have hmedium : Engine.medium
      ⟨⟨Cache.empty capacity hcapacity, s.engine.store.disk⟩, s.engine.map⟩ =
        s.engine.medium := by
    simp only [Engine.medium, hcontent]
    rfl
  have hcounts : Registry.Counts Table.empty ([] ++ r.opened) r.removed := by
    rw [hopened]
    exact Registry.Counts.empty _
  refine ⟨_, ?_, hs.change_registry (Cached.coherent_empty capacity hcapacity _) hmedium hcounts
    (by simp) hs.removed_opened⟩
  rw [Session.mount, Cache.ofCapacity, dif_pos hcapacity]
  rfl

end Shows

section Steps

variable (hs : s.Shows reserved [] r)

include hs

theorem follows_flush : Follows reserved r.names (.ok (some .done, r)) (run .flush s) := by
  obtain ⟨e, hflush, hs', _⟩ := hs.flush
  exact follows_ok ((bind_of_ok hflush).trans rfl) hs' rfl

theorem exists_unmount : ∃ s', unmount s = .ok () s' ∧
    s'.Shows reserved [] (r.handles.entries.foldl (fun r e => r.closeHandle e.1 e.2) r) ∧
    (r.handles.entries.foldl (fun r e => r.closeHandle e.1 e.2) r).opened = [] ∧
    (r.handles.entries.foldl (fun r e => r.closeHandle e.1 e.2) r).names = r.names ∧
    ∀ t : UInt32, t.toNat < s'.engine.store.size →
      s'.engine.store.disk.device.sectors[t.toNat]? = some (s'.engine.store.content t) := by
  obtain ⟨s₁, hclose, hs₁, hnone, hnames⟩ := hs.closeAll rfl
  obtain ⟨e, hflush, hs', hdisk⟩ := hs₁.flush
  have hget : (get : SessionM Session) s = .ok s s := rfl
  refine ⟨_, ?_, hs', hnone, hnames, hdisk⟩
  rw [unmount, bind_of_ok hget, hs.handles, bind_of_ok hclose]
  exact hflush

theorem follows_remount (capacity : Nat) :
    ∃ outcome, r.run (.remount capacity) = some outcome ∧
      Follows reserved r.names outcome (run (.remount capacity) s) := by
  obtain ⟨s₁, hunmount, hs₁, hnone, hnames, hdisk⟩ := exists_unmount hs
  obtain ⟨a, hsummary, hmade⟩ := run_summary s₁
  have hstep : run (.remount capacity) s = (Session.mount capacity >>= fun _ => pure a) s₁ := by
    rw [run, bind_of_ok hunmount, bind_of_ok hsummary]
  rw [hstep, Reference.run]
  rcases Nat.eq_zero_or_pos capacity with rfl | hpos
  · have hmount : Session.mount 0 s₁ = .error .noSlots s₁ := rfl
    exact ⟨_, if_pos rfl, follows_error (bind_of_error hmount)⟩
  · obtain ⟨s', hmount, hs'⟩ := hs₁.mount hnone hpos hdisk
    refine ⟨_, if_neg (Nat.ne_of_gt hpos), ?_⟩
    refine follows_unsaid ((bind_of_ok hmount).trans rfl) hs' ?_
    rw [hmade, hnames]
    rfl

/-- No sector is free for a new file. -/
theorem follows_make_of_none (length : Nat) (isDir : Bool) (hnone : r.space.available = 0) :
    Follows reserved r.names
      (.ok (some (.number? none), { r with space := r.space.exhaust }))
        (run (.make length isDir) s) := by
  have hsupply : s.engine.medium.map.supply = [] := by
    apply List.length_eq_zero_iff.1
    rw [FreeMap.length_supply]
    exact (congrArg Space.available hs.space).trans hnone
  have halloc : onEngine (Engine.alloc 1) s =
      .ok none { s with engine := ⟨s.engine.store, s.engine.map.refuse⟩ } := by
    apply onEngine_of_ok
    have hmap : s.engine.map.alloc 1 = (none, s.engine.map.refuse) :=
      FreeMap.alloc_of_supply_nil hsupply
    simp only [Engine.alloc, hmap]
  have hholds : Medium.Holds reserved (Engine.medium ⟨s.engine.store, s.engine.map.refuse⟩)
      r.files.get? := hs.holds.congr rfl rfl fun _ _ => rfl
  have hspace : s.engine.map.refuse.space = r.space.exhaust := by
    rw [← hs.space]
    exact Medium.space_refuse hsupply
  have hkeeps : r.Keeps { r with space := r.space.exhaust } := ⟨rfl, fun _ => rfl, fun _ => id⟩
  exact follows_ok ((bind_of_ok halloc).trans rfl)
    (hs.change_files hkeeps hs.coherent hholds hspace)
    rfl

/-- A new file is empty at first and then gets its length, unless that is refused. -/
theorem exists_make (length : Nat) (isDir : Bool) (hsome : r.space.available ≠ 0) :
    ∃ x, ∀ names, ∃ s', s'.Shows reserved [] (Reference.make { r with names } x length isDir).2 ∧
      run (.make length isDir) s =
        .ok (.created x.toNat (Reference.make { r with names } x length isDir).1) s' := by
  obtain ⟨x, rest, hsupply⟩ : ∃ x rest, s.engine.medium.map.supply = x :: rest := by
    apply List.exists_cons_of_ne_nil
    rw [← List.length_pos_iff, FreeMap.length_supply, Nat.pos_iff_ne_zero]
    exact fun hzero => hsome ((congrArg Space.available hs.space).symm.trans hzero)
  refine ⟨x, fun names => ?_⟩
  have halloc : onEngine (Engine.alloc 1) s =
      .ok (some x) { s with engine := ⟨s.engine.store, s.engine.map.grant x⟩ } := by
    apply onEngine_of_ok
    have hmap : s.engine.map.alloc 1 = (some x, s.engine.map.grant x) :=
      FreeMap.alloc_of_supply_cons hsupply _ hs.holds.within
    simp only [Engine.alloc, hmap]
  have hfree := FreeMap.mem_supply hs.holds.within (s := x) (by simp [hsupply])
  have hmark : (File.empty isDir).removed = r.removed x := by
    rw [Reference.removed, hs.holds.none_of_free hfree]
    rfl
  have hmade := Reference.keeps_insert hmark (r.space.exchange 0 1) names
  obtain ⟨hexists, hholds, hstores, hspace⟩ := hs.holds.make hsupply isDir rfl
  rw [← Table.get?_insert_eq_update] at hholds
  have hget : (r.files.insert x (File.empty isDir)).get? x = some (File.empty isDir) := by
    rw [Table.get?_insert, if_pos rfl]
  obtain ⟨result, d', heval, hresult, hholds', hspace', _⟩ := Medium.Holds.resize
    (r := { r with
      files := r.files.insert x (File.empty isDir)
      space := r.space.exchange 0 1
      names }) hholds (hspace.trans (by rw [← hs.space]; rfl)) hget hstores length
  have hcreate := Volume.eval_create
    (d := Engine.medium ⟨s.engine.store, s.engine.map.grant x⟩) hexists heval
  rw [hresult] at hcreate
  have hcoherent : ({ s with engine := ⟨s.engine.store, s.engine.map.grant x⟩ } :
      Session).engine.store.Coherent := hs.coherent
  obtain ⟨e, hscript, hcoherent', rfl⟩ := script_of_eval_ok hcoherent hcreate
  refine ⟨_, hs.change_files (hmade.trans (Reference.keeps_resize hget length)) hcoherent' hholds'
    hspace', ?_⟩
  exact (bind_of_ok halloc).trans ((bind_of_ok hscript).trans rfl)

theorem follows_make (length : Nat) (isDir : Bool)
    (hnames : ∀ a s', run (.make length isDir) s = .ok a s' → made a <+: r.names) :
    ∃ outcome, r.run (.make length isDir) = some outcome ∧
      Follows reserved r.names outcome (run (.make length isDir) s) := by
  rw [Reference.run]
  by_cases hnone : r.space.available = 0
  · rw [if_pos hnone]
    exact ⟨_, rfl, follows_make_of_none hs length isDir hnone⟩
  · rw [if_neg hnone]
    obtain ⟨x, hmake⟩ := exists_make hs length isDir hnone
    obtain ⟨s', _, hstep⟩ := hmake r.names
    have hprefix := hnames _ s' hstep
    rw [made, UInt32.ofNat_toNat] at hprefix
    obtain ⟨names, hlist⟩ := hprefix
    rw [← hlist]
    obtain ⟨s', hs', hstep⟩ := hmake names
    have hrest : (Reference.make { r with names } x length isDir).2.names = names :=
      Reference.names_resize ..
    refine ⟨.ok (some (.created x.toNat (Reference.make { r with names } x length isDir).1),
      (Reference.make { r with names } x length isDir).2), rfl, follows_ok hstep hs' ?_⟩
    rw [hrest, made, UInt32.ofNat_toNat]

/-- Opening a file. The handle is not kept yet. -/
theorem exists_open {x : UInt32} {f : File} (hf : r.files.get? x = some f) :
    ∃ s₁, volume (Volume.open x) s = .ok ⟨x, false⟩ s₁ ∧ s₁.Shows reserved [⟨x, false⟩] r ∧
      s₁.engine.medium = s.engine.medium ∧ s₁.handles = s.handles := by
  obtain ⟨n, hn⟩ := hs.holds.stores x f hf
  have hcounts : s.registry.Counts r.opened r.removed := hs.counts
  have hfresh : openers r.opened x = 0 → r.removed x = false := by
    intro hzero
    by_contra hremoved
    exact hs.removed_opened x (by simpa using hremoved) hzero
  obtain ⟨g, hgives, hcounts'⟩ := gives_open hn.hasInode hcounts hfresh
  obtain ⟨e, hvolume, hcoherent, hmedium⟩ := volume_of_gives hs.coherent hgives
  exact ⟨_, hvolume, hs.counted (by rw [hf]; rfl) hcoherent hmedium hcounts', hmedium, rfl⟩

theorem follows_open (k : Nat) (x : UInt32) {f : File} (hf : r.files.get? x = some f) :
    Follows reserved r.names (.ok (some (.number x.toNat), r.keep k ⟨x, false⟩))
      (run (.open k x) s) := by
  obtain ⟨s₁, hopen, hs₁, -⟩ := exists_open hs hf
  obtain ⟨s', hkeep, hs'⟩ := hs₁.keep (k := k)
  refine follows_ok ((bind_of_ok hopen).trans ((bind_of_ok hkeep).trans rfl)) hs' ?_
  rw [Reference.names_keep]
  rfl

theorem follows_limit (quota : Option Nat) :
    Follows reserved r.names (.ok (some .done, { r with space.quota := quota }))
      (run (.map (.limit quota)) s) := by
  have hholds :
    Medium.Holds reserved (Engine.medium ⟨s.engine.store, { s.engine.map with quota }⟩)
      r.files.get? := hs.holds.congr rfl rfl fun _ _ => rfl
  have hspace : FreeMap.space { s.engine.map with quota } = { r.space with quota } := by
    rw [← hs.space]
    rfl
  have hkeeps : r.Keeps { r with space.quota := quota } := ⟨rfl, fun _ => rfl, fun _ => id⟩
  exact follows_ok rfl (hs.change_files hkeeps hs.coherent hholds hspace) rfl

theorem follows_freeCount : Follows reserved r.names (.ok (some (.number r.space.free), r))
    (run (.map .freeCount) s) := by
  have hstep : run (.map .freeCount) s = .ok (.number s.engine.map.bitmap.freeCount) s := rfl
  have hcount : s.engine.map.bitmap.freeCount = r.space.free := congrArg Space.free hs.space
  rw [hcount] at hstep
  exact follows_ok hstep hs rfl

theorem follows_handle (k : Nat) (step : HandleStep) :
    ∃ outcome, r.run (.handle k step) = some outcome ∧
      Follows reserved r.names outcome (run (.handle k step) s) := by
  rw [Reference.run]
  cases hk : r.handles.get? k with
  | none =>
    exact ⟨_, rfl, follows_ok (run_handle_of_none (by rw [hs.handles, hk]) step) hs rfl⟩
  | some h =>
    obtain ⟨f, hf⟩ := Option.isSome_iff_exists.1 (hs.live h (Shows.mem_opened hk))
    simp only [hf]
    rw [run_handle (by rw [hs.handles, hk])]
    exact ⟨_, rfl, follows_runHandle hs hk hf step⟩

/-- Every step on files has an outcome in the reference, and the session follows it. -/
theorem follows_run (step : Step) (hadmits : r.admits step = true)
    (hnames : ∀ a s', run step s = .ok a s' → made a <+: r.names) :
    ∃ outcome, r.run step = some outcome ∧ Follows reserved r.names outcome (run step s) := by
  cases step with
  | make length isDir => exact follows_make hs length isDir hnames
  | «open» k x =>
    obtain ⟨f, hf⟩ := Option.isSome_iff_exists.1 hadmits
    refine ⟨_, ?_, follows_open hs k x hf⟩
    rw [Reference.run, hf]
  | openInodes => exact ⟨_, rfl, follows_unsaid rfl hs rfl⟩
  | flush => exact ⟨_, rfl, follows_flush hs⟩
  | remount capacity => exact follows_remount hs capacity
  | handle k step => exact follows_handle hs k step
  | summary => exact ⟨_, rfl, follows_unsaid rfl hs rfl⟩
  | map step =>
    cases step with
    | limit quota => exact ⟨_, rfl, follows_limit hs quota⟩
    | freeCount => exact ⟨_, rfl, follows_freeCount hs⟩
    | _ => exact absurd hadmits (by simp [Reference.admits])
  | _ => exact absurd hadmits (by simp [Reference.admits])

end Steps

/-- An answer is the expected one, if there is one. -/
def Agrees (expected : Option Answer) (a : Answer) : Prop := ∀ b, expected = some b → a = b

/-- What a run leaves is what the reference is then, or the same fault. -/
def Ends (reserved : Nat) : Except Fault Reference → Except Fault Session → Prop
  | .ok r, .ok s => s.Shows reserved [] r
  | .error f, .error g => g = f
  | _, _ => False

/-- Runs of any length, if the new files of the reference lie where the session makes them. -/
theorem follows_play (steps : List Step) (hs : s.Shows reserved [] r)
    (hnames : r.names = (play steps s).answers.flatMap made)
    (hadmits : Reference.admitsAll steps r = true) :
    ∃ answers final, Reference.play steps r = some (answers, final) ∧
      List.Forall₂ Agrees answers (play steps s).answers ∧
      Ends reserved final (play steps s).final := by
  induction steps generalizing s r with
  | nil => exact ⟨[], .ok r, rfl, List.Forall₂.nil, hs⟩
  | cons step rest ih =>
    rw [Reference.admitsAll, Bool.and_eq_true] at hadmits
    obtain ⟨hstep, hrest⟩ := hadmits
    obtain ⟨outcome, hrun, hfollows⟩ : ∃ outcome, r.run step = some outcome ∧
        Follows reserved r.names outcome (run step s) := by
      apply follows_run hs step hstep
      intro a s' hok
      rw [hnames, play, Transcript.ofSteps, hok]
      exact List.prefix_append (made a) _
    rw [hrun] at hrest
    rw [play, Transcript.ofSteps] at hnames ⊢
    rw [Reference.play, hrun]
    cases hresult : run step s with
    | error g s' =>
      rw [hresult] at hfollows
      cases outcome with
      | error f => exact ⟨[], .error f, rfl, List.Forall₂.nil, hfollows⟩
      | ok expected => exact False.elim hfollows
    | ok a s' =>
      rw [hresult] at hfollows hnames
      cases outcome with
      | error f => exact False.elim hfollows
      | ok expected =>
        obtain ⟨b, r'⟩ := expected
        obtain ⟨hanswer, hs', hmade⟩ := hfollows
        rw [hmade] at hnames
        have hnames' := List.append_cancel_left hnames
        obtain ⟨answers, final, hplay, hanswers, hends⟩ := ih hs' hnames' hrest
        refine ⟨b :: answers, final, ?_, List.Forall₂.cons hanswer hanswers, hends⟩
        simp only [hplay, Option.map_some]

end Session

end SectorVolume
