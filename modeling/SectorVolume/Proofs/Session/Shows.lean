import SectorVolume.Proofs.Registry.Counts
import SectorVolume.Proofs.Session.Steps
import SectorVolume.Proofs.Volume.Contents
import SectorVolume.Proofs.Volume.Lifetimes

/-!
When a session shows a reference. Behind the cache lie the files of the reference and nothing
else, the free sectors are as many, the handles are the same, and the registry counts them. While
a handle is being opened or closed it is counted already, or still, but not kept under a number:
such handles stand beside the relation.
-/

namespace SectorVolume

namespace Reference

variable (r : Reference) (x : UInt32)

def removed : Bool := (r.files.get? x).any File.removed

variable {r x} in
theorem removed_of_get? {f : File} (hf : r.files.get? x = some f) : r.removed x = f.removed := by
  rw [removed, hf, Option.any_some]

@[simp] theorem handles_reclaim : (r.reclaim x).handles = r.handles := by
  rw [reclaim]
  split
  · rfl
  · split <;> rfl

@[simp] theorem names_reclaim : (r.reclaim x).names = r.names := by
  rw [reclaim]
  split
  · rfl
  · split <;> rfl

end Reference

theorem Table.get?_insert_eq_update {α : Type} (t : Table UInt32 α) (x : UInt32) (a : α) :
    (t.insert x a).get? = Function.update t.get? x (some a) := by
  funext y
  rw [Table.get?_insert, Function.update_apply]

theorem Table.get?_erase_eq_update {α : Type} (t : Table UInt32 α) (x : UInt32) :
    (t.erase x).get? = Function.update t.get? x none := by
  funext y
  rw [Table.get?_erase, Function.update_apply]

namespace Session

section Keep

variable {s : Session} {k : Nat} {h old : Handle}

theorem keep_of_none (hk : s.handles.get? k = none) :
    keep k h s = .ok () { s with handles := s.handles.insert k h } := by
  have hget : (get : SessionM Session) s = .ok s s := rfl
  rw [keep, bind_of_ok hget, hk]
  rfl

theorem keep_of_some (hk : s.handles.get? k = some old) :
    keep k h s = volume old.close { s with handles := s.handles.insert k h } := by
  have hget : (get : SessionM Session) s = .ok s s := rfl
  rw [keep, bind_of_ok hget, hk]
  rfl

end Keep

/-- The session has the files and handles of the reference; `extra` are handles that are counted
but not kept. -/
structure Shows (reserved : Nat) (extra : List Handle) (s : Session) (r : Reference) : Prop where
  coherent : s.engine.store.Coherent
  holds : s.engine.medium.Holds reserved r.files.get?
  space : s.engine.map.space = r.space
  handles : s.handles = r.handles
  sorted : r.handles.Sorted
  counts : s.registry.Counts (extra ++ r.opened) r.removed
  live : ∀ h ∈ extra ++ r.opened, (r.files.get? h.sector).isSome
  removed_opened : ∀ x, r.removed x = true → openers (extra ++ r.opened) x ≠ 0

namespace Shows

variable {reserved : Nat} {extra extra' : List Handle} {s : Session} {r : Reference} {h : Handle}
  {k : Nat}

/-- Keeping and dropping handles, with all of them counted. -/
theorem perm (hs : s.Shows reserved extra r) {handles : Table Nat Handle}
    (hsorted : handles.Sorted)
    (hperm : (extra ++ r.opened).Perm (extra' ++ handles.entries.map Prod.snd)) :
    Shows reserved extra' { s with handles } { r with handles } where
  coherent := hs.coherent
  holds := hs.holds
  space := hs.space
  handles := rfl
  sorted := hsorted
  counts := hs.counts.perm hperm
  live h' hmem := hs.live h' (hperm.mem_iff.2 hmem)
  removed_opened x hx := by
    have hopeners := openers_perm (x := x) hperm
    have hne := hs.removed_opened x hx
    rw [hopeners] at hne
    exact hne

theorem mem_opened (hk : r.handles.get? k = some h) : h ∈ r.opened :=
  List.mem_map.2 ⟨(k, h), Table.mem_of_get? hk, rfl⟩

theorem perm_opened (hs : s.Shows reserved extra r) (hk : r.handles.get? k = some h) :
    r.opened.Perm (h :: (r.handles.erase k).entries.map Prod.snd) :=
  (hs.sorted.perm_erase hk).map Prod.snd

/-- A change to the registry, with other handles beside it. -/
theorem change_registry (hs : s.Shows reserved extra r) {e : Engine RamDisk} {g : Registry}
    (hcoherent : e.store.Coherent) (hmedium : e.medium = s.engine.medium)
    (hcounts : g.Counts (extra' ++ r.opened) r.removed)
    (hlive : ∀ h ∈ extra', (r.files.get? h.sector).isSome)
    (hremoved : ∀ x, r.removed x = true → openers (extra' ++ r.opened) x ≠ 0) :
    Shows reserved extra' { s with engine := e, registry := g } r where
  coherent := hcoherent
  holds := by
    rw [hmedium]
    exact hs.holds
  space := by
    have hmap : e.map = s.engine.map := congrArg Medium.map hmedium
    rw [hmap]
    exact hs.space
  handles := hs.handles
  sorted := hs.sorted
  counts := hcounts
  live h hmem := by
    rcases List.mem_append.1 hmem with hmem | hmem
    · exact hlive h hmem
    · exact hs.live h (List.mem_append_right _ hmem)
  removed_opened := hremoved

section Close

variable (hs : s.Shows reserved [h] r)

include hs

theorem openers_of_removed {x : UInt32} (hx : x ≠ h.sector) (hremoved : r.removed x = true) :
    openers r.opened x ≠ 0 := by
  have hne := hs.removed_opened x hremoved
  rwa [List.singleton_append, (counts_cons_of_ne r.opened hx).1] at hne

/-- Other handles are on the file. -/
theorem close_of_open (hopen : openers r.opened h.sector ≠ 0) :
    ∃ s', volume h.close s = .ok () s' ∧ s'.Shows reserved [] r := by
  obtain ⟨g, hgives, hcounts⟩ := gives_close_of_open (d := s.engine.medium) hs.counts hopen
  obtain ⟨e, hvolume, hcoherent, hmedium⟩ := volume_of_gives hs.coherent hgives
  refine ⟨_, hvolume, hs.change_registry hcoherent hmedium hcounts (by simp) fun x hx => ?_⟩
  by_cases hxh : x = h.sector
  · rw [hxh]
    exact hopen
  · exact hs.openers_of_removed hxh hx

/-- It was the last handle, and the file stays. -/
theorem close_of_kept (hlast : openers r.opened h.sector = 0)
    (hkept : r.removed h.sector = false) :
    ∃ s', volume h.close s = .ok () s' ∧ s'.Shows reserved [] r := by
  have hreclaim : if r.removed h.sector then
      (Handle.reclaim h.sector).eval s.engine.medium = .ok ((), s.engine.medium)
      else s.engine.medium = s.engine.medium := by
    rw [hkept]
    rfl
  obtain ⟨g, hgives, hcounts⟩ := gives_close_of_last hs.counts hlast hreclaim
  obtain ⟨e, hvolume, hcoherent, hmedium⟩ := volume_of_gives hs.coherent hgives
  refine ⟨_, hvolume, hs.change_registry hcoherent hmedium hcounts (by simp) fun x hx => ?_⟩
  apply hs.openers_of_removed ?_ hx
  rintro rfl
  rw [hkept] at hx
  exact absurd hx (by decide)

/-- It was the last handle on a file that is removed. -/
theorem close_of_removed {f : File} (hf : r.files.get? h.sector = some f)
    (hlast : openers r.opened h.sector = 0) (hmark : f.removed = true) :
    ∃ s', volume h.close s = .ok () s' ∧ s'.Shows reserved [] { r with
      files := r.files.erase h.sector
      space := r.space.exchange (f.blocks + 1) 0 } := by
  obtain ⟨n, hn⟩ := hs.holds.stores h.sector f hf
  obtain ⟨d', heval, hholds, hspace⟩ := hs.holds.reclaim hf hn
  have hreclaim : if r.removed h.sector then
      (Handle.reclaim h.sector).eval s.engine.medium = .ok ((), d')
      else d' = s.engine.medium := by
    rw [Reference.removed_of_get? hf, hmark]
    exact heval
  obtain ⟨g, hgives, hcounts⟩ := gives_close_of_last hs.counts hlast hreclaim
  obtain ⟨e, hvolume, hcoherent, rfl⟩ := volume_of_gives hs.coherent hgives
  have hother : ∀ x, x ≠ h.sector → (r.files.erase h.sector).get? x = r.files.get? x :=
    fun x hx => by rw [Table.get?_erase, if_neg hx]
  have hgone : (r.files.erase h.sector).get? h.sector = none := by
    rw [Table.get?_erase, if_pos rfl]
  refine ⟨_, hvolume, {
    coherent := hcoherent
    holds := by
      rw [Table.get?_erase_eq_update]
      exact hholds
    space := by
      rw [← hs.space]
      exact hspace
    handles := hs.handles
    sorted := hs.sorted
    counts := ?_
    live := ?_
    removed_opened := ?_
  }⟩
  · apply hcounts.congr_removed
    intro x hx
    have hxh : x ≠ h.sector := by
      rintro rfl
      exact hx hlast
    simp only [Reference.removed, hother x hxh]
  · intro h' hmem
    have hne : h'.sector ≠ h.sector := by
      intro heq
      have hopeners := openers_ne_zero hmem
      rw [heq] at hopeners
      exact hopeners hlast
    rw [hother _ hne]
    exact hs.live h' (List.mem_cons_of_mem _ hmem)
  · intro x hx
    have hxh : x ≠ h.sector := by
      rintro rfl
      simp only [Reference.removed, hgone] at hx
      exact absurd hx (by decide)
    simp only [Reference.removed, hother x hxh] at hx
    exact hs.openers_of_removed hxh hx

/-- A handle that is not kept any more is closed. -/
theorem close :
    ∃ s', volume h.close s = .ok () s' ∧ s'.Shows reserved [] (r.reclaim h.sector) := by
  obtain ⟨f, hf⟩ := Option.isSome_iff_exists.1 (hs.live h List.mem_cons_self)
  by_cases hlast : openers r.opened h.sector = 0
  · cases hmark : f.removed with
    | false =>
      have hsame : r.reclaim h.sector = r := by
        rw [Reference.reclaim, hf]
        exact if_neg fun hboth => by simp [hmark] at hboth
      rw [hsame]
      exact hs.close_of_kept hlast ((Reference.removed_of_get? hf).trans hmark)
    | true =>
      have hgone : r.reclaim h.sector = { r with
          files := r.files.erase h.sector
          space := r.space.exchange (f.blocks + 1) 0 } := by
        rw [Reference.reclaim, hf]
        exact if_pos ⟨hmark, hlast⟩
      rw [hgone]
      exact hs.close_of_removed hf hlast hmark
  · have hsame : r.reclaim h.sector = r := by
      rw [Reference.reclaim, hf]
      exact if_neg fun hboth => hlast hboth.2
    rw [hsame]
    exact hs.close_of_open hlast

end Close

/-- A handle that is not kept under its number any more. -/
theorem dropped (hs : s.Shows reserved [] r) (hk : r.handles.get? k = some h) :
    Shows reserved [h] { s with handles := s.handles.erase k }
      { r with handles := r.handles.erase k } := by
  have hperm : ([] ++ r.opened).Perm ([h] ++ (r.handles.erase k).entries.map Prod.snd) :=
    hs.perm_opened hk
  rw [hs.handles]
  exact hs.perm (hs.sorted.erase k) hperm

/-- A handle that is kept under a number is taken from there and closed. -/
theorem closeHandle (hs : s.Shows reserved [] r) (hk : r.handles.get? k = some h) :
    ∃ s', Session.closeHandle k h s = .ok () s' ∧ s'.Shows reserved [] (r.closeHandle k h) :=
  (hs.dropped hk).close

/-- A handle takes the place of another under a number. -/
theorem displaced (hs : s.Shows reserved [h] r) {old : Handle}
    (hk : r.handles.get? k = some old) :
    Shows reserved [old] { s with handles := s.handles.insert k h }
      { r with handles := r.handles.insert k h } := by
  have hperm : ([h] ++ r.opened).Perm ([old] ++ (r.handles.insert k h).entries.map Prod.snd) :=
    hs.sorted.perm_values_replace hk h
  rw [hs.handles]
  exact hs.perm (hs.sorted.insert k h) hperm

/-- A handle is kept under a number, and one that was there is closed. -/
theorem keep (hs : s.Shows reserved [h] r) :
    ∃ s', Session.keep k h s = .ok () s' ∧ s'.Shows reserved [] (r.keep k h) := by
  cases hold : r.handles.get? k with
  | none =>
    have hperm : ([h] ++ r.opened).Perm ([] ++ (r.handles.insert k h).entries.map Prod.snd) :=
      hs.sorted.perm_values_insert_of_none hold h
    have hkept := hs.perm (hs.sorted.insert k h) hperm
    have hnew : r.keep k h = { r with handles := r.handles.insert k h } := by
      rw [Reference.keep, hold]
    rw [← hs.handles] at hold
    rw [hnew, keep_of_none hold, hs.handles]
    exact ⟨_, rfl, hkept⟩
  | some old =>
    have hnew : r.keep k h =
        { r with handles := r.handles.insert k h }.reclaim old.sector := by
      rw [Reference.keep, hold]
    have hdisplaced := hs.displaced hold
    rw [← hs.handles] at hold
    rw [hnew, keep_of_some hold]
    exact hdisplaced.close

end Shows

end Session

end SectorVolume
