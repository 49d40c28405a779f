import SectorVolume.Proofs.Session.Growth
import SectorVolume.Proofs.Session.Moments

/-!
What can go wrong in a run of steps on files. There are four steps that a caller must not take: to
deny writing twice through one handle, to allow it through a handle that does not deny it, and to
count a child where there is none, or one more than a word can count. Every other step is
answered, whatever the offsets, lengths and quotas, so none of the faults of the lower layers can
occur.
-/

namespace SectorVolume

namespace Piece

/-- A piece lies in its range and in one sector. -/
theorem within_of_mem_ofRange {start stop : Nat} {p : Piece} (h : p ∈ ofRange start stop) :
    start ≤ p.start ∧ p.start + p.len ≤ stop ∧ p.offset + p.len ≤ sectorSize := by
  rw [ofRange] at h
  split at h
  · obtain ⟨i, hi, rfl⟩ := List.mem_map.1 h
    obtain ⟨hlow, hhigh⟩ := List.mem_range'_1.1 hi
    simp only [dataBlocks, within, offset, sectorSize] at *
    omega
  · cases h

end Piece

/-- The steps on a handle that are faults, where the file has the inode `n`. -/
inductive Misuse (h : Handle) (n : Inode) : HandleStep → Fault → Prop
  | deny (hdenies : h.denies = true) : Misuse h n .deny .alreadyDenied
  | allow (hdenies : h.denies = false) : Misuse h n .allow .notDenied
  | removeChild (hnone : n.children = 0) : Misuse h n .removeChild .noChild
  | addChild (hfull : n.children.toNat + 1 = UInt32.size) : Misuse h n .addChild .overflow

namespace Reference

variable {r : Reference} {h : Handle} {f : File} {n : Inode} {fault : Fault}

theorem runHandle_eq_error_iff (hchildren : n.children.toNat = f.children) (k : Nat)
    (step : HandleStep) : r.runHandle k h f step = .error fault ↔ Misuse h n step fault := by
  have hlimit : n.children.toNat < UInt32.size := n.children.toNat_lt_size
  have hzero : n.children = 0 ↔ f.children = 0 := by
    rw [← hchildren, ← UInt32.toNat_inj]
    rfl
  constructor
  · intro herror
    cases step with
    | deny =>
      rw [runHandle] at herror
      split at herror
      · rename_i hdenies
        cases herror
        exact .deny hdenies
      · cases herror
    | allow =>
      rw [runHandle] at herror
      split at herror
      · cases herror
      · rename_i hdenies
        cases herror
        exact .allow (by simpa using hdenies)
    | removeChild =>
      rw [runHandle] at herror
      split at herror
      · rename_i hnone
        cases herror
        exact .removeChild (hzero.2 hnone)
      · cases herror
    | addChild =>
      rw [runHandle] at herror
      split at herror
      · cases herror
      · rename_i hfull
        cases herror
        exact .addChild (by omega)
    | _ => cases herror
  · rintro (hdenies | hdenies | hnone | hfull)
    · exact if_pos hdenies
    · exact if_neg (by simp [hdenies])
    · exact if_pos (hzero.1 hnone)
    · exact if_neg (by omega)

/-- Apart from a volume without a cache only steps on handles can be faults. -/
theorem handle_of_error {step : Step} (hadmits : r.admits step = true)
    (hslots : ∀ slots, step = .remount slots → 0 < slots)
    (herror : r.run step = some (.error fault)) :
    ∃ k action, step = .handle k action := by
  cases step with
  | remount slots =>
    have hpos := hslots slots rfl
    rw [run, if_neg (Nat.ne_of_gt hpos)] at herror
    cases herror
  | flush => cases herror
  | summary => cases herror
  | map action =>
    cases action with
    | limit quota => cases herror
    | freeCount => cases herror
    | _ => exact absurd hadmits (by simp [admits])
  | make length isDir => exact Session.exists_handle_of_error rfl herror
  | «open» k x => exact Session.exists_handle_of_error rfl herror
  | openInodes => exact Session.exists_handle_of_error rfl herror
  | handle k action => exact ⟨k, action, rfl⟩
  | _ => exact absurd hadmits (by simp [admits])

end Reference

namespace Session

variable {s : Session} {r : Reference} {reserved : Nat} {step : Step} {fault : Fault}

/-- A step on a handle that is a fault as things are. -/
def Misuses (s : Session) (step : Step) (fault : Fault) : Prop :=
  ∃ k h action, step = .handle k action ∧ s.handles.get? k = some h ∧
    Misuse h (s.inodeAt h.sector) action fault

theorem Shows.run_handle_eq_error_iff (hs : s.Shows reserved [] r) (k : Nat)
    (action : HandleStep) :
    r.run (.handle k action) = some (.error fault) ↔ s.Misuses (.handle k action) fault := by
  rw [Reference.run, ← hs.handles]
  cases hk : s.handles.get? k with
  | none =>
    refine ⟨fun herror => absurd herror (by simp), ?_⟩
    rintro ⟨k', h, action', heq, hk', -⟩
    cases heq
    rw [hk] at hk'
    cases hk'
  | some h =>
    obtain ⟨-, f, hf, hn⟩ := hs.exists_file hk
    have hiff : r.runHandle k h f action = .error fault ↔
        Misuse h (s.inodeAt h.sector) action fault :=
      Reference.runHandle_eq_error_iff hn.children_eq k action
    simp only [hf, Option.some.injEq, hiff]
    constructor
    · exact fun hmisuse => ⟨k, h, action, rfl, hk, hmisuse⟩
    · rintro ⟨k', h', action', heq, hk', hmisuse⟩
      cases heq
      rw [hk] at hk'
      obtain rfl := Option.some.inj hk'
      exact hmisuse

/-- A step on files is a fault just where it is one of the four. -/
theorem Shows.exists_error_iff (hs : s.Shows reserved [] r) (hadmits : r.admits step = true)
    (hnames : ∀ a s', run step s = .ok a s' → made a <+: r.names)
    (hslots : ∀ slots, step = .remount slots → 0 < slots) :
    (∃ s', run step s = .error fault s') ↔ s.Misuses step fault := by
  constructor
  · rintro ⟨s', hrun⟩
    have herror := run_error hs hadmits hrun
    obtain ⟨k, action, rfl⟩ := Reference.handle_of_error hadmits hslots herror
    exact (hs.run_handle_eq_error_iff k action).1 herror
  · intro hmisuse
    obtain ⟨k, action, rfl⟩ : ∃ k action, step = .handle k action := by
      obtain ⟨k, h, action, rfl, -⟩ := hmisuse
      exact ⟨k, action, rfl⟩
    have herror := (hs.run_handle_eq_error_iff k action).2 hmisuse
    obtain ⟨outcome, houtcome, hfollows⟩ := follows_run hs _ hadmits hnames
    rw [herror, Option.some.injEq] at houtcome
    rw [← houtcome] at hfollows
    cases hrun : run (.handle k action) s with
    | ok a s' =>
      rw [hrun] at hfollows
      exact False.elim hfollows
    | error g s' =>
      rw [hrun] at hfollows
      obtain rfl : g = fault := hfollows
      exact ⟨s', rfl⟩

/-- A run ends in a fault just where it comes to one of the four steps. -/
theorem Shows.play_eq_error_iff {steps : List Step} (hs : s.Shows reserved [] r)
    (hnames : r.names = (play steps s).answers.flatMap made)
    (hadmits : Reference.admitsAll steps r = true)
    (hslots : ∀ slots, Step.remount slots ∈ steps → 0 < slots) :
    (play steps s).final = .error fault ↔
    ∃ before step after mid, steps = before ++ step :: after ∧
      (play before s).final = .ok mid ∧ mid.Misuses step fault := by
  have hmoment : ∀ before step after mid, steps = before ++ step :: after →
      (play before s).final = .ok mid →
      ((∃ s', run step mid = .error fault s') ↔ mid.Misuses step fault) := by
    rintro before step after mid rfl hmid
    obtain ⟨r', hs', hnames', hadmits'⟩ := hs.at_moment hnames hadmits hmid
    obtain ⟨hstep, hprefix⟩ := admits_next hnames' hadmits'
    refine hs'.exists_error_iff hstep hprefix fun slots heq => hslots slots ?_
    rw [heq]
    exact List.mem_append_right _ List.mem_cons_self
  rw [play, Transcript.final_eq_error_iff]
  constructor
  · rintro ⟨before, step, after, mid, s', hsplit, hmid, hrun⟩
    exact ⟨before, step, after, mid, hsplit, hmid,
      (hmoment before step after mid hsplit hmid).1 ⟨s', hrun⟩⟩
  · rintro ⟨before, step, after, mid, hsplit, hmid, hmisuse⟩
    obtain ⟨s', hrun⟩ := (hmoment before step after mid hsplit hmid).2 hmisuse
    exact ⟨before, step, after, mid, s', hsplit, hmid, hrun⟩

theorem Shows.exists_finish (hs : s.Shows reserved [] r) : ∃ a s', finish s = .ok a s' := by
  obtain ⟨s', hunmount, -⟩ := exists_unmount hs
  obtain ⟨a, hsummary, -⟩ := run_summary s'
  exact ⟨a, s', (bind_of_ok hunmount).trans hsummary⟩

/-- Runs of steps on files have no other faults than the four. A run without them can be ended:
all handles are dropped, the files that go with them are reclaimed and the cache is written back.
No file is longer than its index reaches, and no transfer of bytes leaves its buffer or its
sector. -/
theorem faults_are_misuses {disk : RamDisk} {mapped reserved capacity : Nat}
    (hreserved : 0 < reserved) (hfit : reserved ≤ mapped) (hmapped : mapped ≤ disk.sectors.size)
    (hsectors : disk.sectors.size ≤ UInt32.size) (hcapacity : 0 < capacity) (others : Nat) :
    ∃ s₀, startOn disk mapped reserved capacity others = .ok s₀ ∧
      (∀ steps, Reference.admitsAll steps (Reference.start (mapped - reserved)
            ((play steps s₀).answers.flatMap made)) = true →
          (∀ slots, Step.remount slots ∈ steps → 0 < slots) →
        (∀ fault, (play steps s₀).final = .error fault ↔
          ∃ before step after s, steps = before ++ step :: after ∧
            (play before s₀).final = .ok s ∧ s.Misuses step fault) ∧
        ∀ s, (play steps s₀).final = .ok s → (∃ a s', finish s = .ok a s') ∧
          ∀ k h, s.handles.get? k = some h → (s.inodeAt h.sector).length.toNat ≤ maxLength) ∧
      ∀ start stop, ∀ p ∈ Piece.ofRange start stop,
        start ≤ p.start ∧ p.start + p.len ≤ stop ∧ p.offset + p.len ≤ sectorSize := by
  obtain ⟨s₀, hstart, hshows⟩ := exists_start hreserved hfit hmapped hsectors hcapacity others
  refine ⟨s₀, hstart, fun steps hadmits hslots => ⟨fun fault => ?_, fun s hlast => ?_⟩,
    fun start stop p => Piece.within_of_mem_ofRange⟩
  · exact (hshows _).play_eq_error_iff rfl hadmits hslots
  · obtain ⟨r, hs⟩ := (hshows _).at_end rfl hadmits hlast
    refine ⟨hs.exists_finish, fun k h hk => ?_⟩
    obtain ⟨-, f, -, hn⟩ := hs.exists_file hk
    rw [hn.length_eq]
    exact hn.length_le

/-- A handle denies writing and is about to do so again. -/
def deniedRun : List Step := [.make 3 false, .open 0 1, .handle 0 .deny]

theorem exists_denied {s₀ : Session} (hstart : startOn usedDisk 8 1 1 0 = .ok s₀) :
    (play (deniedRun ++ [.handle 0 .deny]) s₀).answers.flatMap made = [1] ∧
      ∃ s, (play deniedRun s₀).final = .ok s ∧ s.handles.get? 0 = some ⟨1, true⟩ := by
  have heval : (startOn usedDisk 8 1 1 0).toOption.bind (fun s₀ =>
      (play deniedRun s₀).final.toOption.map fun s =>
        ((play (deniedRun ++ [.handle 0 .deny]) s₀).answers.flatMap made, s.handles.get? 0)) =
      some ([1], some ⟨1, true⟩) := by
    decide +kernel
  obtain ⟨s, hlast, hs⟩ := exists_end_of_usedDisk hstart heval
  obtain ⟨hmade, hk⟩ := Prod.mk.inj hs
  exact ⟨hmade, s, hlast, hk⟩

/-- A second denial is the end of the run. -/
theorem second_denial_is_a_fault :
    ∃ s₀, startOn usedDisk 8 1 1 0 = .ok s₀ ∧
      (play (deniedRun ++ [.handle 0 .deny]) s₀).final = .error .alreadyDenied := by
  have hsize : usedDisk.sectors.size = 8 := Array.size_replicate
  obtain ⟨s₀, hstart, hfaults, -⟩ := faults_are_misuses (by decide : 0 < 1) (by decide : 1 ≤ 8)
    (Nat.le_of_eq hsize.symm) (by rw [hsize]; decide) (by decide : 0 < 1) 0
  obtain ⟨hmade, s, hlast, hk⟩ := exists_denied hstart
  obtain ⟨hfaults, -⟩ := hfaults (deniedRun ++ [.handle 0 .deny]) (by
    rw [hmade]
    decide +kernel) (by simp [deniedRun])
  exact ⟨s₀, hstart, (hfaults _).2 ⟨deniedRun, _, [], s, rfl, hlast, 0, ⟨1, true⟩, _, rfl, hk,
    .deny rfl⟩⟩

end Session

end SectorVolume
