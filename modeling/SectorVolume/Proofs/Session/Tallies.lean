import SectorVolume.Proofs.Registry.Outcomes
import SectorVolume.Proofs.Session.Twins

/-!
What a step does to the handles and to the registry, wherever it is no fault. Which handles there
are afterwards can be told from the step; the registry counts them if it did before. Most steps
leave both alone.
-/

namespace SectorVolume

/-- What becomes of the handles by a step on the one under a number. -/
def HandleStep.rolls (t : Table Nat Handle) (number : Nat) (h : Handle) :
    HandleStep → Table Nat Handle
  | .close => t.erase number
  | .reopen copy => t.insert copy ⟨h.sector, false⟩
  | .deny => t.insert number { h with denies := true }
  | .allow => t.insert number { h with denies := false }
  | _ => t

/-- Whether a step on a handle concerns the inode of its file only. -/
def HandleStep.onInode : HandleStep → Bool
  | .addChild | .removeChild | .isDir | .inumber | .length | .children | .sectorAt _ | .read ..
  | .resize _ => true
  | _ => false

namespace Step

/-- What becomes of the handles by a step that is no fault. -/
def rolls (t : Table Nat Handle) : Step → Table Nat Handle
  | .open number sector => t.insert number ⟨sector, false⟩
  | .remount _ => Table.empty
  | .handle number step =>
    match t.get? number with
    | some h => step.rolls t number h
    | none => t
  | _ => t

/-- Whether a step can open or close handles, or concerns one. -/
def onHandles : Step → Bool
  | .open .. | .remount _ | .handle .. => true
  | _ => false

/-- Whether a step marks the file in a sector as removed. -/
def marks (t : Table Nat Handle) (x : UInt32) : Step → Bool
  | .handle number .remove => (t.get? number).any fun h => h.sector = x
  | _ => false

end Step

namespace Session

variable {α β : Type}

/-- Leaves the registry and the handles alone wherever it succeeds. -/
def Aloof (m : SessionM α) : Prop :=
  ∀ (s s' : Session) (a : α), m s = .ok a s' → s'.registry = s.registry ∧ s'.handles = s.handles

namespace Aloof

theorem pure (a : α) : Aloof (pure a) := by
  intro s s' b h
  cases h
  exact ⟨rfl, rfl⟩

theorem throw (f : Fault) : Aloof (throw f : SessionM α) := by
  intro s s' b h
  cases h

theorem get : Aloof (get : SessionM Session) := by
  intro s s' b h
  cases h
  exact ⟨rfl, rfl⟩

theorem bind {m : SessionM α} {k : α → SessionM β} (hm : Aloof m) (hk : ∀ a, Aloof (k a)) :
    Aloof (m >>= k) := by
  intro s s' b h
  obtain ⟨a, s₁, hfirst, hrest⟩ := exists_of_bind_ok h
  obtain ⟨hregistry, hhandles⟩ := hm _ _ _ hfirst
  obtain ⟨hregistry', hhandles'⟩ := hk _ _ _ _ hrest
  exact ⟨hregistry'.trans hregistry, hhandles'.trans hhandles⟩

theorem bind_pure {m : SessionM α} (hm : Aloof m) (f : α → β) :
    Aloof (m >>= fun a => Pure.pure (f a)) := hm.bind fun _ => pure _

theorem onEngine (m : EStateM Fault (Engine RamDisk) α) : Aloof (Session.onEngine m) := by
  intro s s' a h
  obtain ⟨-, hs'⟩ := onEngine_eq_ok h
  rw [hs']
  exact ⟨rfl, rfl⟩

theorem onBench (m : EStateM Fault Bench α) : Aloof (Session.onBench m) := by
  intro s s' a h
  cases hm : m ⟨s.engine.store, s.foreign⟩ with
  | error f b => simp [Session.onBench, hm] at h
  | ok b bench =>
    simp only [Session.onBench, hm, EStateM.Result.ok.injEq] at h
    rw [← h.2]
    exact ⟨rfl, rfl⟩

theorem script (p : Script α) : Aloof (Session.script p) := onEngine _

theorem volume {v : VolumeM α} (h : ∀ g, VolumeM.Leaves v g fun _ g' => g' = g) :
    Aloof (Session.volume v) := by
  intro s s' a hrun
  obtain ⟨hengine, hhandles⟩ := volume_eq_ok hrun
  exact ⟨h _ _ _ _ _ hengine, hhandles⟩

theorem query (x : UInt32) (f : OpenEntry → α) :
    Aloof (Session.volume (VolumeM.entry x >>= fun e => Pure.pure (f e))) :=
  volume fun g => (leaves_query x f g).mono fun _ _ => And.right

theorem summary : Aloof Session.summary := get.bind fun _ => pure _

theorem hold (k : Nat) (n : Inode) : Aloof (Session.hold k n) := by
  intro s s' a h
  cases h
  exact ⟨rfl, rfl⟩

theorem runNewInode (k : Nat) (step : InodeStep) : Aloof (Session.runNewInode k step) := by
  cases step with
  | new isDir => exact hold k _
  | load sector offset => exact (onEngine _).bind (hold k)
  | copy source =>
    refine get.bind fun s => ?_
    cases s.held.get? source with
    | none => exact pure _
    | some n => exact hold k n
  | _ => exact pure _

theorem runInode (k : Nat) (n : Inode) (step : InodeStep) :
    Aloof (Session.runInode k n step) := by
  cases step with
  | store sector offset => exact (onEngine _).bind_pure _
  | set length children => exact hold k _
  | equals other =>
    refine get.bind fun s => ?_
    cases s.held.get? other with
    | none => exact pure _
    | some m => exact pure _
  | resize sector length =>
    refine (script _).bind fun result => ?_
    cases result with
    | error refusal => exact pure _
    | ok m => exact (hold k m).bind fun _ => pure _
  | clear => exact (script _).bind (hold k)
  | sectors => exact (script _).bind_pure _
  | sectorAt pos => exact (script _).bind_pure _
  | read offset buffer => exact (script _).bind_pure _
  | write offset data => exact (script _).bind_pure _
  | dump => exact pure _
  | isValid => exact pure _
  | isDir => exact pure _
  | new isDir => exact runNewInode k (.new isDir)
  | load sector offset => exact runNewInode k (.load sector offset)
  | copy source => exact runNewInode k (.copy source)

theorem runDevice (target : Target) (step : DeviceStep) :
    Aloof (Session.runDevice target step) := by
  cases step with
  | fill sector byte => exact (onBench _).bind_pure _
  | write sector data => exact (onBench _).bind_pure _
  | sector sector =>
    refine (onBench _).bind fun disk => ?_
    dsimp only
    cases disk.device.sector sector with
    | ok bytes => exact pure _
    | error f => exact throw f
  | transfers => exact (onBench _).bind_pure _

theorem runSolo (capacity : Nat) (steps : List CacheStep) :
    Aloof (Session.runSolo capacity steps) := by
  rw [Session.runSolo]
  cases Cache.ofCapacity capacity with
  | error f => exact throw f
  | ok solo => exact (onBench _).bind_pure _

theorem runHandle (k : Nat) (h : Handle) {step : HandleStep} (hstep : step.onInode = true) :
    Aloof (Session.runHandle k h step) := by
  cases step with
  | inumber => exact pure _
  | addChild => exact (script _).bind_pure _
  | removeChild => exact (script _).bind_pure _
  | isDir => exact (script _).bind_pure _
  | length => exact (script _).bind_pure _
  | children => exact (script _).bind_pure _
  | sectorAt pos => exact (script _).bind_pure _
  | read offset buffer => exact (script _).bind_pure _
  | resize length => exact (script _).bind_pure _
  | _ => cases hstep

theorem run {step : Step} (hstep : step.onHandles = false) : Aloof (Session.run step) := by
  cases step with
  | create sector length isDir => exact (script _).bind_pure _
  | make length isDir =>
    refine (onEngine _).bind fun sector => ?_
    cases sector with
    | none => exact pure _
    | some sector => exact (script _).bind_pure _
  | openInodes => exact get.bind_pure _
  | flush => exact (onEngine _).bind_pure _
  | inode k step =>
    refine get.bind fun s => ?_
    cases s.held.get? k with
    | none => exact runNewInode k step
    | some n => exact runInode k n step
  | cache step => exact onBench _
  | solo capacity steps => exact runSolo capacity steps
  | device target step => exact runDevice target step
  | summary => exact Aloof.summary
  | map step => exact onEngine _
  | _ => cases hstep

end Aloof

/-- The registry counts the handles that are kept, and some more. -/
def Tallies (s : Session) (extra : List Handle) (removed : UInt32 → Bool) : Prop :=
  s.registry.Counts (extra ++ s.handles.values) removed

variable {s s' : Session} {removed : UInt32 → Bool} {h : Handle} {k : Nat}

theorem leaves_of_volume {v : VolumeM α} {a : α} {Q : α → Registry → Prop}
    (hv : VolumeM.Leaves v s.registry Q) (hrun : volume v s = .ok a s') :
    Q a s'.registry ∧ s'.handles = s.handles := by
  obtain ⟨hengine, hhandles⟩ := volume_eq_ok hrun
  exact ⟨hv _ _ _ _ hengine, hhandles⟩

theorem exists_of_openers_ne_zero {t : Table Nat Handle} (ht : t.Sorted) {x : UInt32}
    (hx : openers t.values x ≠ 0) : ∃ k h, t.get? k = some h ∧ h.sector = x := by
  obtain ⟨h, hmem, hsector⟩ := List.countP_pos_iff.1 (Nat.pos_of_ne_zero hx)
  obtain ⟨⟨k, h⟩, hentry, rfl⟩ := List.mem_map.1 hmem
  exact ⟨k, h, ht.get?_of_mem hentry, of_decide_eq_true hsector⟩

theorem tallies_of_closeHandle (hsorted : s.handles.Sorted) (hs : s.Tallies [] removed)
    (hk : s.handles.get? k = some h) (hrun : closeHandle k h s = .ok () s') :
    s'.handles = s.handles.erase k ∧ s'.Tallies [] removed := by
  obtain ⟨_, s₁, hmodify, hclose⟩ := exists_of_bind_ok hrun
  cases hmodify
  have hcounts : s.registry.Counts (h :: (s.handles.erase k).values) removed :=
    hs.perm (hsorted.perm_values_erase hk)
  obtain ⟨hleft, hhandles⟩ := leaves_of_volume
    (s := { s with handles := s.handles.erase k }) (leaves_close hcounts) hclose
  refine ⟨hhandles, ?_⟩
  rw [Tallies, hhandles]
  exact hleft

theorem tallies_of_keep (hsorted : s.handles.Sorted) (hs : s.Tallies [h] removed)
    (hrun : keep k h s = .ok () s') :
    s'.handles = s.handles.insert k h ∧ s'.Tallies [] removed := by
  obtain ⟨_, s₁, hget, hrest⟩ := exists_of_bind_ok hrun
  cases hget
  obtain ⟨_, s₂, hmodify, hclose⟩ := exists_of_bind_ok hrest
  cases hmodify
  cases hold : s.handles.get? k with
  | none =>
    rw [hold] at hclose
    cases hclose
    exact ⟨rfl, hs.perm (hsorted.perm_values_insert_of_none hold h)⟩
  | some old =>
    rw [hold] at hclose
    have hcounts : s.registry.Counts (old :: (s.handles.insert k h).values) removed :=
      hs.perm (hsorted.perm_values_replace hold h)
    obtain ⟨hleft, hhandles⟩ := leaves_of_volume
      (s := { s with handles := s.handles.insert k h }) (leaves_close hcounts) hclose
    refine ⟨hhandles, ?_⟩
    rw [Tallies, hhandles]
    exact hleft

theorem handles_of_closeHandle (hrun : closeHandle k h s = .ok () s') :
    s'.handles = s.handles.erase k := by
  obtain ⟨_, s₁, hmodify, hclose⟩ := exists_of_bind_ok hrun
  cases hmodify
  exact (volume_eq_ok hclose).2

/-- Closing the handles one after the other. -/
theorem handles_of_closeAll {entries : List (Nat × Handle)} (hsorted : s.handles.Sorted)
    (hentries : s.handles.entries = entries)
    (hrun : (entries.forM fun (number, h) => closeHandle number h) s = .ok () s') :
    s'.handles = Table.empty := by
  induction entries generalizing s with
  | nil =>
    cases hrun
    exact congrArg Table.mk hentries
  | cons e rest ih =>
    obtain ⟨k, h⟩ := e
    obtain ⟨_, s₁, hclose, hrest⟩ := exists_of_bind_ok
      (m := closeHandle k h)
      (k := fun _ => rest.forM fun (number, h) => closeHandle number h) hrun
    have hhandles := handles_of_closeHandle hclose
    have htable : s.handles = ⟨(k, h) :: rest⟩ := by rw [← hentries]
    rw [htable] at hhandles hsorted
    rw [hsorted.erase_head] at hhandles
    refine ih ?_ (congrArg Table.entries hhandles) hrest
    rw [hhandles]
    exact (List.pairwise_cons.1 hsorted).2

theorem tallies_of_remount {capacity : Nat} {a : Answer} (hsorted : s.handles.Sorted)
    (hrun : run (.remount capacity) s = .ok a s') :
    s'.handles = Table.empty ∧ s'.Tallies [] removed := by
  obtain ⟨_, s₁, hunmount, hrest⟩ := exists_of_bind_ok hrun
  obtain ⟨_, s₂, hsummary, hrest⟩ := exists_of_bind_ok hrest
  obtain ⟨_, s₃, hmount, hdone⟩ := exists_of_bind_ok hrest
  cases hdone
  obtain ⟨_, s₄, hget, hclose⟩ := exists_of_bind_ok hunmount
  cases hget
  obtain ⟨_, s₅, hall, hflush⟩ := exists_of_bind_ok hclose
  have hempty : s₂.handles = Table.empty := by
    rw [(Aloof.summary _ _ _ hsummary).2, (Aloof.onEngine _ _ _ _ hflush).2]
    exact handles_of_closeAll hsorted rfl hall
  cases hcapacity : Cache.ofCapacity capacity with
  | error f =>
    rw [mount, hcapacity] at hmount
    cases hmount
  | ok cache =>
    rw [mount, hcapacity] at hmount
    cases hmount
    refine ⟨hempty, ?_⟩
    rw [Tallies, hempty]
    exact Registry.Counts.empty removed

/-- A step on a handle that is kept. -/
theorem tallies_of_runHandle {step : HandleStep} {a : Answer} (hsorted : s.handles.Sorted)
    (hs : s.Tallies [] removed) (hk : s.handles.get? k = some h)
    (hrun : runHandle k h step s = .ok a s') :
    s'.handles = step.rolls s.handles k h ∧ s'.Tallies []
      fun x => (Step.handle k step).marks s.handles x || removed x := by
  have hmem := Table.mem_values hk
  have hcounts : s.registry.Counts (h :: (s.handles.erase k).values) removed :=
    hs.perm (hsorted.perm_values_erase hk)
  have hquiet : Aloof (runHandle k h step) → s'.handles = s.handles ∧ s'.Tallies [] removed := by
    intro haloof
    obtain ⟨hregistry, hhandles⟩ := haloof _ _ _ hrun
    refine ⟨hhandles, ?_⟩
    rw [Tallies, hregistry, hhandles]
    exact hs
  have hreplaced : ∀ {s₁ : Session} {b : Bool}, s₁.handles = s.handles →
      s₁.registry.Counts ({ h with denies := b } :: (s.handles.erase k).values) removed →
      Tallies { s₁ with handles := s₁.handles.insert k { h with denies := b } } [] removed := by
    intro s₁ b hhandles hleft
    rw [hhandles]
    exact hleft.perm (hsorted.perm_values_insert k { h with denies := b }).symm
  cases step with
  | close =>
    obtain ⟨_, s₁, hclose, hdone⟩ := exists_of_bind_ok hrun
    cases hdone
    exact tallies_of_closeHandle hsorted hs hk hclose
  | reopen copy =>
    obtain ⟨new, s₁, hreopen, hrest⟩ := exists_of_bind_ok hrun
    obtain ⟨count, s₂, hcount, hrest⟩ := exists_of_bind_ok hrest
    obtain ⟨_, s₃, hkeep, hdone⟩ := exists_of_bind_ok hrest
    cases hdone
    obtain ⟨⟨rfl, hopened⟩, hhandles⟩ := leaves_of_volume (leaves_reopen hs hmem) hreopen
    obtain ⟨hregistry, hhandles'⟩ := Aloof.query h.sector OpenEntry.openers _ _ _ hcount
    have hsame : s₂.handles = s.handles := hhandles'.trans hhandles
    have htallies : s₂.Tallies [⟨h.sector, false⟩] removed := by
      rw [Tallies, hregistry, hsame]
      exact hopened
    obtain ⟨hkept, htallies'⟩ := tallies_of_keep (by rw [hsame]; exact hsorted) htallies hkeep
    rw [hsame] at hkept
    exact ⟨hkept, htallies'⟩
  | remove =>
    obtain ⟨_, s₁, hremove, hdone⟩ := exists_of_bind_ok hrun
    cases hdone
    obtain ⟨hmarked, hhandles⟩ := leaves_of_volume (leaves_remove hs hmem) hremove
    refine ⟨hhandles, ?_⟩
    rw [Tallies, hhandles]
    simpa only [Step.marks, hk, Option.any_some] using hmarked
  | deny =>
    obtain ⟨h', s₁, hdeny, hdone⟩ := exists_of_bind_ok hrun
    cases hdone
    obtain ⟨⟨rfl, hdenied⟩, hhandles⟩ := leaves_of_volume (leaves_deny hcounts) hdeny
    exact ⟨congrArg (fun t => Table.insert t k _) hhandles, hreplaced hhandles hdenied⟩
  | allow =>
    obtain ⟨h', s₁, hallow, hdone⟩ := exists_of_bind_ok hrun
    cases hdone
    obtain ⟨⟨rfl, hallowed⟩, hhandles⟩ := leaves_of_volume (leaves_allow hcounts) hallow
    exact ⟨congrArg (fun t => Table.insert t k _) hhandles, hreplaced hhandles hallowed⟩
  | isRemoved => exact hquiet ((Aloof.query h.sector OpenEntry.removed).bind_pure _)
  | isDenied => exact hquiet ((Aloof.query h.sector fun e => decide (0 < e.denials)).bind_pure _)
  | openCount => exact hquiet ((Aloof.query h.sector OpenEntry.openers).bind_pure _)
  | write offset data =>
    exact hquiet ((Aloof.volume fun g => leaves_writeAt h g offset data).bind_pure _)
  | _ => exact hquiet (Aloof.runHandle k h rfl)

theorem tallies_of_open {x : UInt32} {a : Answer} (hsorted : s.handles.Sorted)
    (hs : s.Tallies [] removed) (hfresh : openers s.handles.values x = 0 → removed x = false)
    (hrun : run (.open k x) s = .ok a s') :
    s'.handles = s.handles.insert k ⟨x, false⟩ ∧ s'.Tallies [] removed := by
  obtain ⟨h, s₁, hopen, hrest⟩ := exists_of_bind_ok hrun
  obtain ⟨_, s₂, hkeep, hdone⟩ := exists_of_bind_ok hrest
  cases hdone
  obtain ⟨⟨rfl, hopened⟩, hhandles⟩ := leaves_of_volume (leaves_open hs hfresh) hopen
  have htallies : s₁.Tallies [⟨x, false⟩] removed := by
    rw [Tallies, hhandles]
    exact hopened
  obtain ⟨hkept, htallies'⟩ := tallies_of_keep (by rw [hhandles]; exact hsorted) htallies hkeep
  rw [hhandles] at hkept
  exact ⟨hkept, htallies'⟩

/-- One step, of whatever kind. -/
theorem tallies_of_run {step : Step} {a : Answer} (hsorted : s.handles.Sorted)
    (hs : s.Tallies [] removed) (hfresh : ∀ x, openers s.handles.values x = 0 → removed x = false)
    (hrun : run step s = .ok a s') :
    s'.handles = step.rolls s.handles ∧
      s'.Tallies [] fun x => step.marks s.handles x || removed x := by
  have hquiet : Aloof (run step) → s'.handles = s.handles ∧ s'.Tallies [] removed := by
    intro haloof
    obtain ⟨hregistry, hhandles⟩ := haloof _ _ _ hrun
    refine ⟨hhandles, ?_⟩
    rw [Tallies, hregistry, hhandles]
    exact hs
  cases step with
  | «open» k x => exact tallies_of_open hsorted hs (hfresh x) hrun
  | remount capacity => exact tallies_of_remount hsorted hrun
  | handle k step =>
    cases hk : s.handles.get? k with
    | none =>
      rw [run_handle_of_none hk] at hrun
      cases hrun
      simp only [Step.rolls, hk]
      refine ⟨trivial, ?_⟩
      cases step with
      | remove =>
        simp only [Step.marks, hk]
        exact hs
      | _ => exact hs
    | some h =>
      rw [run_handle hk] at hrun
      simp only [Step.rolls, hk]
      exact tallies_of_runHandle hsorted hs hk hrun
  | _ => exact hquiet (Aloof.run rfl)

theorem sorted_rolls {t : Table Nat Handle} (ht : t.Sorted) (step : Step) :
    (step.rolls t).Sorted := by
  cases step with
  | «open» k x => exact ht.insert k _
  | remount capacity => exact Table.sorted_empty
  | handle k step =>
    rw [Step.rolls]
    split
    · cases step with
      | close => exact ht.erase k
      | reopen copy => exact ht.insert copy _
      | deny => exact ht.insert k _
      | allow => exact ht.insert k _
      | _ => exact ht
    · exact ht
  | _ => exact ht

end Session

end SectorVolume
