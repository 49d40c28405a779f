import SectorVolume.Proofs.Session.Roll
import SectorVolume.Proofs.Session.Unmarked

/-!
When the sectors of a file are returned: when the last handle on a removed file goes, and not
before. Until then the file can be used as any other, and one that is not removed outlives all its
handles. The handles go by being closed, by being replaced under their numbers, or all together
when the volume is unmounted, which closes them one after the other.
-/

namespace SectorVolume

namespace Reference

variable {r : Reference} {x : UInt32} {k : Nat} {h old : Handle}

theorem reclaim_of_kept (hkept : r.removed x = false) : r.reclaim x = r := by
  rw [reclaim]
  split
  · rfl
  · rename_i f hf
    rw [removed_of_get? hf] at hkept
    exact if_neg fun hboth => by simp [hkept] at hboth

theorem files_closeHandle_of_kept (hkept : r.removed h.sector = false) :
    (r.closeHandle k h).files = r.files := by
  have hkept' : Reference.removed { r with handles := r.handles.erase k } h.sector = false :=
    hkept
  rw [closeHandle, reclaim_of_kept hkept']

theorem files_keep_of_kept (hk : r.handles.get? k = some old)
    (hkept : r.removed old.sector = false) : (r.keep k h).files = r.files := by
  have hkept' : Reference.removed { r with handles := r.handles.insert k h } old.sector = false :=
    hkept
  simp only [keep, hk]
  rw [reclaim_of_kept hkept']

end Reference

namespace Session

variable {s s' s'' : Session} {r : Reference} {reserved : Nat} {old : Handle} {step : Step}
  {a : Answer} {x : UInt32}

theorem Drops.exists_number (hdrops : s.Drops old step) : ∃ k, s.handles.get? k = some old := by
  cases hdrops with
  | close hk => exact ⟨_, hk⟩
  | «open» y hk => exact ⟨_, hk⟩
  | reopen hj hk => exact ⟨_, hk⟩

theorem Drops.isOpen (hdrops : s.Drops old step) : s.IsOpen old.sector :=
  hdrops.exists_number.imp fun _ hk => ⟨old, hk, rfl⟩

namespace Shows

/-- The mark of an open file is in its entry. -/
theorem removed_entry (hs : s.Shows reserved [] r) (hopen : s.IsOpen x) :
    (s.registry.entry x).removed = r.removed x := by
  have hcounts : s.registry.Counts r.opened r.removed := hs.counts
  rw [hcounts.entry_of_ne_zero (hs.isOpen_iff.1 hopen)]

/-- A handle can always go. -/
theorem exists_run_of_drop (hs : s.Shows reserved [] r) (hadmits : r.admits step = true)
    (hdrops : s.Drops old step) : ∃ a s', run step s = .ok a s' := by
  cases hdrops with
  | close hk =>
    obtain ⟨s', hclose, -⟩ := hs.closeHandle (hs.handles ▸ hk)
    rw [run_handle hk]
    exact ⟨_, s', (bind_of_ok hclose).trans rfl⟩
  | «open» y hk =>
    obtain ⟨f, hf⟩ := Option.isSome_iff_exists.1 hadmits
    obtain ⟨a, s', hrun, -⟩ := (follows_open hs _ y hf).exists_ok
    exact ⟨a, s', hrun⟩
  | reopen hj hk =>
    obtain ⟨-, f, hf, -⟩ := hs.exists_file hj
    obtain ⟨a, s', hrun, -⟩ := Follows.exists_ok (follows_reopen hs (f := f) (hs.handles ▸ hj) _)
    rw [run_handle hj]
    exact ⟨a, s', hrun⟩

section Drop

variable (hs : s.Shows reserved [] r) (hadmits : r.admits step = true) (hdrops : s.Drops old step)
  (hrun : run step s = .ok a s')

include hs hadmits hdrops hrun

/-- No byte of any sector changes when a handle goes. -/
theorem content_of_drop (hc' : s'.engine.store.Coherent) :
    s'.engine.store.content = s.engine.store.content := by
  obtain ⟨s₁, r₁, hs₁, hclose, hmedium, -⟩ := hs.exists_drop hadmits hdrops hrun
  have hfirst : s₁.engine.store.content = s.engine.store.content :=
    congrArg Medium.content hmedium
  exact ((Still.volume old.mute_close).content_eq hs₁.coherent hc' hclose).trans hfirst

/-- The files that are still open have all their sectors. -/
theorem used_of_drop {r' : Reference} (hs' : s'.Shows reserved [] r') {y : UInt32}
    (hopen : s'.IsOpen y) :
    ∀ t ∈ y :: s.treeOf y, s'.engine.map.bitmap.used? t.toNat = some true := by
  have hcontent := hs.content_of_drop hadmits hdrops hrun hs'.coherent
  obtain ⟨k, h, hk, rfl⟩ := hopen
  have hlive := hs'.live h (mem_opened (hs'.handles ▸ hk))
  have htree : s'.treeOf h.sector = s.treeOf h.sector := by
    rw [treeOf, treeOf, inodeAt, inodeAt, hcontent]
  intro t ht
  rw [← htree] at ht
  exact hs'.holds.used_owned hlive ht

/-- Nothing is returned as long as there is another handle, or if the file is not marked. -/
theorem map_of_drop (hstays : s'.IsOpen old.sector ∨ r.removed old.sector = false) :
    s'.engine.map = s.engine.map := by
  obtain ⟨s₁, r₁, hs₁, hclose, hmedium, hfiles⟩ := hs.exists_drop hadmits hdrops hrun
  have hhandles := (volume_eq_ok hclose).2
  have hsame := hs₁.medium_of_close hclose (hstays.imp (fun hopen => ?_) fun hkept => ?_)
  · exact congrArg Medium.map (hsame.trans hmedium)
  · rw [IsOpen, hhandles] at hopen
    exact hs₁.isOpen_iff.1 hopen
  · rw [Reference.removed, hfiles]
    exact hkept

theorem reclaimed_of_drop (hlast : ¬s'.IsOpen old.sector)
    (hremoved : r.removed old.sector = true) :
    s.Reclaimed old.sector s' := by
  obtain ⟨s₁, r₁, hs₁, hclose, hmedium, hfiles⟩ := hs.exists_drop hadmits hdrops hrun
  have hhandles := (volume_eq_ok hclose).2
  have hnone : openers r₁.opened old.sector = 0 := by
    rw [IsOpen, hhandles] at hlast
    exact not_not.1 fun hne => hlast (hs₁.isOpen_iff.2 hne)
  have hreclaimed := hs₁.reclaimed_of_close hclose hnone (by
    rw [Reference.removed, hfiles]
    exact hremoved)
  have hlive : (r.files.get? old.sector).isSome := hfiles ▸ hs₁.live old List.mem_cons_self
  -- the session that closes the handle shows the same medium
  have hmap : s₁.engine.map = s.engine.map := congrArg Medium.map hmedium
  have hcontent : s₁.engine.store.content = s.engine.store.content :=
    congrArg Medium.content hmedium
  have hinode : s₁.inodeAt old.sector = s.inodeAt old.sector := by
    rw [inodeAt, inodeAt, hcontent]
  have htree : s₁.treeOf old.sector = s.treeOf old.sector := by
    rw [treeOf, treeOf, hinode, hcontent]
  exact {
    listed := hs.partition.listed old.sector hlive
    nodup := htree ▸ hreclaimed.nodup
    returned := by
      rw [← htree, ← hmap]
      exact hreclaimed.returned
    allocs := hmap ▸ hreclaimed.allocs
    releases := by
      rw [← hinode, ← hmap]
      exact hreclaimed.releases
    freeCount := by
      rw [← hinode, ← hmap]
      exact hreclaimed.freeCount
  }

end Drop

/-- The reference keeps the file if it is not marked. -/
theorem files_of_drop (hs : s.Shows reserved [] r) (hdrops : s.Drops old step) {b : Option Answer}
    {r' : Reference} (hreference : r.run step = some (.ok (b, r')))
    (hkept : r.removed old.sector = false) : r'.files = r.files := by
  cases hdrops with
  | close hk =>
    rw [hs.handles] at hk
    obtain ⟨f, hf⟩ := Option.isSome_iff_exists.1 (hs.live old (mem_opened hk))
    simp only [Reference.run, hk, hf] at hreference
    cases hreference
    exact Reference.files_closeHandle_of_kept hkept
  | «open» y hk =>
    rw [hs.handles] at hk
    rw [Reference.run] at hreference
    split at hreference
    · cases hreference
    · cases hreference
      exact Reference.files_keep_of_kept hk hkept
  | reopen hj hk =>
    rw [hs.handles] at hj hk
    obtain ⟨f, hf⟩ := Option.isSome_iff_exists.1 (hs.live _ (mem_opened hj))
    simp only [Reference.run, hj, hf] at hreference
    cases hreference
    exact Reference.files_keep_of_kept hk hkept

/-- A file that is not marked, opened again after its last handle went and after whatever else. -/
theorem exists_reopened (hs : s.Shows reserved [] r) {later : List Step}
    (hnames : r.names = (play (step :: later) s).answers.flatMap made)
    (hadmits : Reference.admitsAll (step :: later) r = true) (hdrops : s.Drops old step)
    (hrun : run step s = .ok a s') (hlast : ¬s'.IsOpen old.sector)
    (hkept : r.removed old.sector = false) (hlater : ∀ j, Step.open j old.sector ∉ later)
    (hend : (play later s').final = .ok s'') (k : Nat) :
    ∃ t, run (.open k old.sector) s'' = .ok (.number old.sector.toNat) t ∧
      (t.inodeAt old.sector).length = (s.inodeAt old.sector).length ∧
      (∀ p, t.hidden old.sector p = s.hidden old.sector p) ∧
      ∀ p, p < (s.inodeAt old.sector).length.toNat → t.Reads k p (s.hidden old.sector p) := by
  obtain ⟨f, hf, hn⟩ : ∃ f, r.files.get? old.sector = some f ∧
      s.engine.medium.Stores old.sector (s.inodeAt old.sector) f := by
    obtain ⟨j, hj⟩ := hdrops.exists_number
    exact (hs.exists_file hj).2
  obtain ⟨b, r₁, hreference, -, hs₁, hnames₁, hadmits₁⟩ := hs.at_next hnames hadmits hrun
  have hf₁ : r₁.files.get? old.sector = some f := by
    rw [hs.files_of_drop hdrops hreference hkept, hf]
  obtain ⟨r₂, hs₂, hf₂, hclosed⟩ := hs₁.unopened_of_play hnames₁ hadmits₁ hend hf₁ hlast hlater
  obtain ⟨t, hopen, hlength, hhidden, hreads⟩ := hs₂.exists_opened hf₂ hclosed k
  refine ⟨t, hopen, ?_, fun p => by rw [hhidden, hidden_eq hn], fun p hp => ?_⟩
  · rw [← UInt32.toNat_inj, hlength, hn.length_eq]
  · rw [hn.length_eq] at hp
    rw [hidden_eq hn]
    exact hreads p hp

end Shows

/-- The steps that close all handles in the order of their numbers. -/
def closes (s : Session) : List Step := s.handles.entries.map fun e => .handle e.1 .close

/-- Closing the handles one after the other by steps. -/
theorem play_closes {entries : List (Nat × Handle)} (hentries : s.handles.entries = entries)
    (hsorted : s.handles.Sorted)
    (hclose : (entries.forM fun (number, h) => closeHandle number h) s = .ok () s') :
    (play s.closes s).final = .ok s' := by
  rw [closes, hentries]
  induction entries generalizing s with
  | nil => exact congrArg _ (EStateM.Result.ok.inj hclose).2
  | cons e rest ih =>
    obtain ⟨k, h⟩ := e
    have htable : s.handles = ⟨(k, h) :: rest⟩ := by rw [← hentries]
    have hk : s.handles.get? k = some h := by
      rw [htable]
      simp [Table.get?]
    obtain ⟨_, s₁, hfirst, hrest⟩ := exists_of_bind_ok hclose
    have hhandle : closeHandle k h s = .ok () s₁ := hfirst
    have hvolume : volume h.close { s with handles := s.handles.erase k } = .ok () s₁ := hfirst
    have hhandles : s₁.handles = ⟨rest⟩ := by
      rw [htable] at hsorted hvolume
      rw [(volume_eq_ok hvolume).2, ← hsorted.erase_head]
    have hrun : run (.handle k .close) s = .ok .done s₁ := by
      rw [run_handle hk, runHandle, bind_of_ok hhandle]
      rfl
    rw [List.map_cons, play_cons_of_ok hrun]
    refine ih (by rw [hhandles]) ?_ hrest
    rw [hhandles]
    rw [htable] at hsorted
    exact (List.pairwise_cons.1 hsorted).2

/-- Unmounting a volume returns the sectors that closing all handles returns. -/
theorem Shows.exists_remount (hs : s.Shows reserved [] r) {capacity : Nat}
    (hcapacity : 0 < capacity) : ∃ a s' t, run (.remount capacity) s = .ok a s' ∧
      (play s.closes s).final = .ok t ∧ s'.engine.map = t.engine.map ∧
      s'.engine.store.content = s.engine.store.content := by
  obtain ⟨s₁, hunmount, -⟩ := exists_unmount hs
  obtain ⟨a, hsummary, -⟩ := run_summary s₁
  have hrun : run (.remount capacity) s = .ok a { s₁ with
      engine := ⟨⟨Cache.empty capacity hcapacity, s₁.engine.store.disk⟩, s₁.engine.map⟩
      registry := Table.empty } := by
    rw [run, bind_of_ok hunmount, bind_of_ok hsummary, bind_of_ok (mount_eq_ok hcapacity s₁)]
    rfl
  have hget : (get : SessionM Session) s = .ok s s := rfl
  rw [unmount, bind_of_ok hget] at hunmount
  obtain ⟨_, t, hclose, hflush⟩ := exists_of_bind_ok hunmount
  refine ⟨a, _, t, hrun, play_closes rfl (hs.handles ▸ hs.sorted) hclose, ?_,
    hs.content_of_remount hrun⟩
  exact (Engine.onStore_eq_ok (onEngine_eq_ok hflush).1).2

/-- A handle that goes returns sectors just where it is the last one on a removed file: then those
of the file, each once. No byte of any sector changes, and every file that is open still has all
its sectors. A file that is not removed can be opened again later, and then has the same length
and the same bytes. As long as a handle is on a file its mark has no effect on what is done with
it. Unmounting a volume closes all handles. -/
theorem removed_files_go_with_their_last_handle {disk : RamDisk} {mapped reserved capacity : Nat}
    (hreserved : 0 < reserved) (hfit : reserved ≤ mapped) (hmapped : mapped ≤ disk.sectors.size)
    (hsectors : disk.sectors.size ≤ UInt32.size) (hcapacity : 0 < capacity) (others : Nat) :
    ∃ s₀, startOn disk mapped reserved capacity others = .ok s₀ ∧
      (∀ history step s old, Reference.admitsAll (history ++ [step])
            (Reference.start (mapped - reserved)
              ((play (history ++ [step]) s₀).answers.flatMap made)) = true →
          (play history s₀).final = .ok s → s.Drops old step →
        ∃ a s', run step s = .ok a s' ∧ s'.engine.store.content = s.engine.store.content ∧
          (∀ y, s'.IsOpen y →
            ∀ t ∈ y :: s.treeOf y, s'.engine.map.bitmap.used? t.toNat = some true) ∧
          (s'.IsOpen old.sector ∨ (s.registry.entry old.sector).removed = false →
            s'.engine.map = s.engine.map) ∧
          (¬s'.IsOpen old.sector → (s.registry.entry old.sector).removed = true →
            s.Reclaimed old.sector s')) ∧
      (∀ history step later s a s' s'' old k, Reference.admitsAll (history ++ step :: later)
            (Reference.start (mapped - reserved)
              ((play (history ++ step :: later) s₀).answers.flatMap made)) = true →
          (play history s₀).final = .ok s → run step s = .ok a s' → s.Drops old step →
          ¬s'.IsOpen old.sector → (s.registry.entry old.sector).removed = false →
          (∀ j, Step.open j old.sector ∉ later) → (play later s').final = .ok s'' →
        ∃ t, run (.open k old.sector) s'' = .ok (.number old.sector.toNat) t ∧
          (t.inodeAt old.sector).length = (s.inodeAt old.sector).length ∧
          (∀ p, t.hidden old.sector p = s.hidden old.sector p) ∧
          ∀ p, p < (s.inodeAt old.sector).length.toNat → t.Reads k p (s.hidden old.sector p)) ∧
      (∀ history later s s' x, Reference.admitsAll (history ++ later)
            (Reference.start (mapped - reserved)
              ((play (history ++ later) s₀).answers.flatMap made)) = true →
          (play history s₀).final = .ok s → (play later s).final = .ok s' →
          (∀ before after mid, later = before ++ after → (play before s).final = .ok mid →
            mid.IsOpen x) →
          (∀ before step after mid, later = before ++ step :: after →
            (play before s).final = .ok mid → ¬mid.AsksMark x step) →
        play later (s.unmark x) = ⟨(play later s).answers, .ok (s'.unmark x)⟩) ∧
      ∀ history s slots, Reference.admitsAll history (Reference.start (mapped - reserved)
            ((play history s₀).answers.flatMap made)) = true →
          (play history s₀).final = .ok s → 0 < slots →
        ∃ a s' t, run (.remount slots) s = .ok a s' ∧ (play s.closes s).final = .ok t ∧
          s'.engine.map = t.engine.map ∧
          s'.engine.store.content = s.engine.store.content := by
  obtain ⟨s₀, hstart, hshows⟩ := exists_start hreserved hfit hmapped hsectors hcapacity others
  refine ⟨s₀, hstart, ?_, ?_, ?_, ?_⟩
  · intro history step s old hadmits hmid hdrops
    obtain ⟨r, hs, hnames, hadmits'⟩ := (hshows _).at_moment rfl hadmits hmid
    obtain ⟨hstep, -⟩ := admits_next hnames hadmits'
    obtain ⟨a, s', hrun⟩ := hs.exists_run_of_drop hstep hdrops
    obtain ⟨-, r', -, -, hs', -⟩ := hs.at_next hnames hadmits' hrun
    rw [hs.removed_entry hdrops.isOpen]
    exact ⟨a, s', hrun, hs.content_of_drop hstep hdrops hrun hs'.coherent,
      fun y => hs.used_of_drop hstep hdrops hrun hs', hs.map_of_drop hstep hdrops hrun,
      hs.reclaimed_of_drop hstep hdrops hrun⟩
  · intro history step later s a s' s'' old k hadmits hmid hrun hdrops hlast hkept hlater hend
    obtain ⟨r, hs, hnames, hadmits'⟩ := (hshows _).at_moment rfl hadmits hmid
    rw [hs.removed_entry hdrops.isOpen] at hkept
    exact hs.exists_reopened hnames hadmits' hdrops hrun hlast hkept hlater hend k
  · intro history later s s' x hadmits hmid hlast hopen hasks
    obtain ⟨r, hs, hnames, hadmits'⟩ := (hshows _).at_moment rfl hadmits hmid
    exact hs.blind_play hnames hadmits' hlast hopen hasks
  · intro history s slots hadmits hlast hslots
    obtain ⟨r, hs⟩ := (hshows _).at_end rfl hadmits hlast
    exact hs.exists_remount hslots

/-- Three bytes are written to a file. -/
def writtenRun : List Step := [.make 3 false, .open 0 1, .handle 0 (.write 0 #[7, 8, 9])]

/-- The file is removed, and of two handles on it one is left. -/
def removedRun : List Step :=
  writtenRun ++ [.handle 0 (.reopen 1), .handle 0 .remove, .handle 0 .close]

/-- A byte is written through the handle that is left. -/
def lateWrite : List Step := [.handle 1 (.write 2 #[5])]

theorem made_removedRun {s₀ : Session} (hstart : startOn usedDisk 8 1 1 0 = .ok s₀) :
    (play (removedRun ++ [.handle 1 .close]) s₀).answers.flatMap made = [1] ∧
      (play (removedRun ++ lateWrite) s₀).answers.flatMap made = [1] ∧
      (play (writtenRun ++ [.handle 0 .close, .make 0 false]) s₀).answers.flatMap made =
        [1, 3] := by
  have heval : (startOn usedDisk 8 1 1 0).toOption.map (fun s₀ =>
      ((play (removedRun ++ [.handle 1 .close]) s₀).answers.flatMap made,
        (play (removedRun ++ lateWrite) s₀).answers.flatMap made,
        (play (writtenRun ++ [.handle 0 .close, .make 0 false]) s₀).answers.flatMap made)) =
      some ([1], [1], [1, 3]) := by
    decide +kernel
  simpa only [Prod.mk.injEq] using eq_of_usedDisk hstart heval

theorem exists_removed {s₀ : Session} (hstart : startOn usedDisk 8 1 1 0 = .ok s₀) :
    ∃ s s', (play removedRun s₀).final = .ok s ∧ (play lateWrite s).final = .ok s' ∧
      s.registry.entry 1 = ⟨1, true, 0⟩ ∧ s.engine.map.bitmap.freeCount = 5 ∧
      (s.inodeAt 1).length.toNat = 3 := by
  have heval : (startOn usedDisk 8 1 1 0).toOption.bind (fun s₀ =>
      (play removedRun s₀).final.toOption.map fun s => ((play lateWrite s).final.isOk,
        s.registry.entry 1, s.engine.map.bitmap.freeCount, (s.inodeAt 1).length.toNat)) =
      some (true, ⟨1, true, 0⟩, 5, 3) := by
    decide +kernel
  obtain ⟨s, hlast, hs⟩ := exists_end_of_usedDisk hstart heval
  simp only [Prod.mk.injEq] at hs
  obtain ⟨hok, hs⟩ := hs
  cases hwrite : (play lateWrite s).final with
  | error f => simp [hwrite, Except.isOk, Except.toBool] at hok
  | ok s' => exact ⟨s, s', hlast, hwrite, hs⟩

theorem exists_written {s₀ : Session} (hstart : startOn usedDisk 8 1 1 0 = .ok s₀) :
    ∃ s a s' s'', (play writtenRun s₀).final = .ok s ∧ run (.handle 0 .close) s = .ok a s' ∧
      (play [.make 0 false] s').final = .ok s'' ∧ s.registry.entry 1 = ⟨1, false, 0⟩ ∧
      (s.inodeAt 1).length.toNat = 3 ∧ s.hidden 1 2 = 9 := by
  have heval : (startOn usedDisk 8 1 1 0).toOption.bind (fun s₀ =>
      (play writtenRun s₀).final.toOption.map fun s => (s.registry.entry 1,
        (s.inodeAt 1).length.toNat, s.hidden 1 2,
        (play [.handle 0 .close, .make 0 false] s).final.isOk)) =
      some (⟨1, false, 0⟩, 3, 9, true) := by
    decide +kernel
  obtain ⟨s, hlast, hs⟩ := exists_end_of_usedDisk hstart heval
  simp only [Prod.mk.injEq] at hs
  obtain ⟨hentry, hlength, hhidden, hok⟩ := hs
  cases hrun : run (.handle 0 .close) s with
  | error f s' => simp [play_cons_of_error hrun, Except.isOk, Except.toBool] at hok
  | ok a s' =>
    cases hmake : (play [.make 0 false] s').final with
    | error f => simp [play_cons_of_ok hrun, hmake, Except.isOk, Except.toBool] at hok
    | ok s'' => exact ⟨s, a, s', s'', hlast, hrun, hmake, hentry, hlength, hhidden⟩

/-- No handle is left after a run and one more step. -/
theorem not_isOpen_of_roll {s₀ : Session} {history : List Step}
    (hstart : startOn usedDisk 8 1 1 0 = .ok s₀) (hlast : (play history s₀).final = .ok s)
    (hrun : run step s = .ok a s') (hnone : roll (history ++ [step]) = Table.empty) :
    ¬s'.IsOpen x := by
  have hplay : (play [step] s).final = .ok s' := by
    rw [play_cons_of_ok hrun]
    rfl
  rintro ⟨k, h, hk, -⟩
  rw [handles_of_play hstart hlast hplay, hnone] at hk
  cases hk

/-- The last handle on a removed file takes both of its sectors along. Before, the file could be
written as if it were not removed. A file that is not is still there after another was made, with
its last byte. -/
theorem removedRun_ends_with_two_sectors_more :
    ∃ s₀, startOn usedDisk 8 1 1 0 = .ok s₀ ∧
      (∃ s a s' t, (play removedRun s₀).final = .ok s ∧ run (.handle 1 .close) s = .ok a s' ∧
        s.Reclaimed 1 s' ∧ s.engine.map.bitmap.freeCount = 5 ∧
        s'.engine.map.bitmap.freeCount = 7 ∧ (play lateWrite s).final = .ok t ∧
        play lateWrite (s.unmark 1) = ⟨(play lateWrite s).answers, .ok (t.unmark 1)⟩) ∧
      ∃ s a s' s'' t, (play writtenRun s₀).final = .ok s ∧ run (.handle 0 .close) s = .ok a s' ∧
        (play [.make 0 false] s').final = .ok s'' ∧ run (.open 5 1) s'' = .ok (.number 1) t ∧
        (t.inodeAt 1).length.toNat = 3 ∧ t.Reads 5 2 9 := by
  have hsize : usedDisk.sectors.size = 8 := Array.size_replicate
  obtain ⟨s₀, hstart, hdrop, hreopen, hblind, -⟩ := removed_files_go_with_their_last_handle
    (by decide : 0 < 1) (by decide : 1 ≤ 8) (Nat.le_of_eq hsize.symm) (by rw [hsize]; decide)
    (by decide : 0 < 1) 0
  obtain ⟨hmade, hmade', hmade''⟩ := made_removedRun hstart
  obtain ⟨hregistry, hhandles⟩ := empty_of_startOn hstart
  refine ⟨s₀, hstart, ?_, ?_⟩
  · obtain ⟨s, t, hlast, hwrite, hentry, hfree, hlength⟩ := exists_removed hstart
    have hk : s.handles.get? 1 = some ⟨1, false⟩ := by
      rw [(tallies_of_play hregistry hhandles hlast).1]
      decide
    obtain ⟨a, s', hrun, -, -, -, hreclaimed⟩ :=
      hdrop removedRun (.handle 1 .close) s ⟨1, false⟩ (by
      rw [hmade]
      decide +kernel) hlast (.close hk)
    have hgone := hreclaimed (not_isOpen_of_roll hstart hlast hrun rfl) (by rw [hentry])
    have hcount := hgone.freeCount
    rw [hfree, hlength] at hcount
    refine ⟨s, a, s', t, hlast, hrun, hgone, hfree, hcount.trans (by decide), hwrite, ?_⟩
    refine hblind removedRun lateWrite s t 1 (by
      rw [hmade']
      decide +kernel) hlast hwrite ?_ ?_
    · intro before after mid hsplit hmid
      refine ⟨1, ⟨1, false⟩, ?_, rfl⟩
      rw [handles_of_play hstart hlast hmid]
      obtain ⟨rfl, -⟩ | ⟨rfl, -⟩ := List.append_eq_singleton_iff.1 hsplit.symm
      · decide
      · decide
    · rintro before step after mid hsplit - ⟨k, h, -, -, hasks⟩
      obtain ⟨-, hstep⟩ | ⟨-, hstep⟩ := List.append_eq_singleton_iff.1 hsplit.symm
      · obtain ⟨rfl, -⟩ := List.cons.inj hstep
        rcases hasks with hasks | hasks <;> cases hasks
      · cases hstep
  · obtain ⟨s, a, s', s'', hlast, hrun, hend, hentry, hlength, hhidden⟩ := exists_written hstart
    have hk : s.handles.get? 0 = some ⟨1, false⟩ := by
      rw [(tallies_of_play hregistry hhandles hlast).1]
      decide
    obtain ⟨t, hopen, hsame, -, hreads⟩ :=
      hreopen writtenRun (.handle 0 .close) [.make 0 false] s a s'
      s'' ⟨1, false⟩ 5 (by
        rw [hmade'']
        decide +kernel) hlast hrun (.close hk) (not_isOpen_of_roll hstart hlast hrun rfl)
      (by rw [hentry]) (by simp) hend
    refine ⟨s, a, s', s'', t, hlast, hrun, hend, hopen, by rw [hsame, hlength], ?_⟩
    rw [← hhidden]
    exact hreads 2 (by rw [hlength]; decide)

end Session

end SectorVolume
