import SectorVolume.Proofs.Session.Frames

/-!
What becomes of a file when a handle on it is closed, or is dropped because another is kept under
its number. As long as there are other handles, or if the file is not marked as removed, nothing
does. The last handle takes a removed file with it: the sectors of its tree and that of its inode
are returned, each once, and no sector is asked for or written.
-/

namespace SectorVolume

namespace Session

variable {s s' : Session} {r : Reference} {reserved : Nat} {h old : Handle} {step : Step}
  {a : Answer}
  {x : UInt32}

/-- The step takes a handle from its number. -/
inductive Drops (s : Session) (old : Handle) : Step → Prop
  | close {k : Nat} (hk : s.handles.get? k = some old) : Drops s old (.handle k .close)
  | «open» {k : Nat} (x : UInt32) (hk : s.handles.get? k = some old) : Drops s old (.open k x)
  | reopen {j k : Nat} {h : Handle} (hj : s.handles.get? j = some h)
    (hk : s.handles.get? k = some old) : Drops s old (.handle j (.reopen k))

/-- The sectors of the file in sector `x` were returned, each once, and no others. None was asked
for. -/
structure Reclaimed (x : UInt32) (s s' : Session) : Prop where
  listed : s.engine.answer (s.inodeAt x).sectors = .ok (s.treeOf x)
  nodup : (x :: s.treeOf x).Nodup
  returned : ∃ returned, returned.Perm (x :: s.treeOf x) ∧
    s'.engine.map = s.engine.map.takeBackAll returned
  allocs : s'.engine.map.allocs = s.engine.map.allocs
  releases : s'.engine.map.releases =
    s.engine.map.releases + (1 + totalBlocks (s.inodeAt x).length.toNat)
  freeCount : s'.engine.map.bitmap.freeCount =
    s.engine.map.bitmap.freeCount + (1 + totalBlocks (s.inodeAt x).length.toNat)

namespace Shows

/-- Dropping a handle comes down to closing one that is not kept any more. -/
theorem exists_drop (hs : s.Shows reserved [] r) (hadmits : r.admits step = true)
    (hdrops : s.Drops old step) (hrun : run step s = .ok a s') :
    ∃ s₁ r₁, s₁.Shows reserved [old] r₁ ∧ volume old.close s₁ = .ok () s' ∧
      s₁.engine.medium = s.engine.medium ∧ r₁.files = r.files := by
  cases hdrops with
  | close hk =>
    rw [run_handle hk] at hrun
    obtain ⟨_, s₂, hclose, hrest⟩ := exists_of_bind_ok hrun
    cases hrest
    exact ⟨_, _, hs.dropped (hs.handles ▸ hk), hclose, rfl, rfl⟩
  | «open» x hk =>
    obtain ⟨f, hf⟩ := Option.isSome_iff_exists.1 hadmits
    obtain ⟨s₁, hopen, hs₁, hmedium, hhandles⟩ := exists_open hs hf
    rw [← hhandles] at hk
    rw [run, bind_of_ok hopen] at hrun
    obtain ⟨_, s₂, hkeep, hrest⟩ := exists_of_bind_ok hrun
    cases hrest
    rw [keep_of_some hk] at hkeep
    exact ⟨_, _, hs₁.displaced (hs₁.handles ▸ hk), hkeep, hmedium, rfl⟩
  | reopen hj hk =>
    obtain ⟨s₁, s₂, hreopen, hcount, hs₂, hmedium, hhandles⟩ := exists_reopen hs (hs.handles ▸ hj)
    rw [← hhandles] at hk
    rw [run_handle hj, runHandle, bind_of_ok hreopen, bind_of_ok hcount] at hrun
    obtain ⟨_, s₃, hkeep, hrest⟩ := exists_of_bind_ok hrun
    cases hrest
    rw [keep_of_some hk] at hkeep
    exact ⟨_, _, hs₂.displaced (hs₂.handles ▸ hk), hkeep, hmedium, rfl⟩

section Close

variable (hs : s.Shows reserved [h] r) (hclose : volume h.close s = .ok () s')

include hs hclose

/-- Other handles are on the file, or it is not marked. -/
theorem medium_of_close (hstays : openers r.opened h.sector ≠ 0 ∨ r.removed h.sector = false) :
    s'.engine.medium = s.engine.medium := by
  obtain ⟨g, hgives⟩ :
      ∃ g, VolumeM.Gives h.close s.registry s.engine.medium () g s.engine.medium := by
    by_cases hlast : openers r.opened h.sector = 0
    · have hkept := hstays.resolve_left (not_not_intro hlast)
      have hreclaim : if r.removed h.sector then
          (Handle.reclaim h.sector).eval s.engine.medium = .ok ((), s.engine.medium)
          else s.engine.medium = s.engine.medium := by
        rw [hkept]
        rfl
      obtain ⟨g, hgives, -⟩ := gives_close_of_last hs.counts hlast hreclaim
      exact ⟨g, hgives⟩
    · obtain ⟨g, hgives, -⟩ := gives_close_of_open (d := s.engine.medium) hs.counts hlast
      exact ⟨g, hgives⟩
  obtain ⟨e, hvolume, -, hmedium⟩ := volume_of_gives hs.coherent hgives
  rw [hvolume] at hclose
  cases hclose
  exact hmedium

/-- It was the last handle on a file that is marked. -/
theorem reclaimed_of_close (hlast : openers r.opened h.sector = 0)
    (hremoved : r.removed h.sector = true) : s.Reclaimed h.sector s' := by
  have hx := hs.live h List.mem_cons_self
  obtain ⟨f, hf⟩ := Option.isSome_iff_exists.1 hx
  obtain ⟨n, hn⟩ := hs.holds.stores h.sector f hf
  obtain ⟨d', returned, heval, hperm, -, hmap, -⟩ := hn.eval_reclaim
  have hreclaim : if r.removed h.sector then
      (Handle.reclaim h.sector).eval s.engine.medium = .ok ((), d')
      else d' = s.engine.medium := by
    rw [hremoved]
    exact heval
  obtain ⟨g, hgives, -⟩ := gives_close_of_last hs.counts hlast hreclaim
  obtain ⟨e, hvolume, -, rfl⟩ := volume_of_gives hs.coherent hgives
  rw [hvolume] at hclose
  cases hclose
  obtain rfl : s.inodeAt h.sector = n := hn.hasInode.ofSector_eq
  have hpartition := hs.partition
  have hnodup : returned.Nodup := hperm.nodup_iff.2 (hpartition.nodup h.sector hx)
  have hlength : returned.length = 1 + totalBlocks (s.inodeAt h.sector).length.toNat := by
    rw [hperm.length_eq, hn.owned_eq, List.length_cons, hn.length_blocks, File.blocks,
      hn.length_eq, Nat.add_comm]
  have hmap' : e.map = s.engine.map.takeBackAll returned := hmap
  have hused : ∀ t ∈ returned, s.engine.map.bitmap.used? t.toNat = some true :=
    fun t ht => hn.used_owned (hperm.mem_iff.1 ht)
  exact {
    listed := hpartition.listed h.sector hx
    nodup := hpartition.nodup h.sector hx
    returned := ⟨returned, hperm, hmap⟩
    allocs := by rw [hmap', FreeMap.allocs_takeBackAll]
    releases := by rw [hmap', FreeMap.releases_takeBackAll, hlength]
    freeCount := by rw [hmap', FreeMap.freeCount_takeBackAll hnodup hused, hlength]
  }

end Close

end Shows

end Session

end SectorVolume
