import SectorVolume.Proofs.Registry.Counts
import SectorVolume.Proofs.Resize.Yields

/-!
Scripts that neither write nor ask for a sector. Reading is such a script, and so is giving back a
file: the walk that cuts it to nothing returns every block it comes to and stores none. What such
scripts leave on a medium holds every byte that was there before.
-/

namespace SectorVolume

namespace Script

variable {α β : Type}

/-- Neither writes nor asks for a sector, whatever it is told. -/
inductive Mute : Script α → Prop
  | done (a : α) : Mute (done a)
  | fail (f : Fault) : Mute (fail f)
  | fetch {s : UInt32} {next : Sector → Script α} (h : ∀ data, Mute (next data)) :
    Mute (fetch s next)
  | release {s : UInt32} {next : Script α} (h : Mute next) : Mute (release s next)

theorem mute_pure (a : α) : (pure a : Script α).Mute := .done a

theorem Mute.bind {p : Script α} {k : α → Script β} (hp : p.Mute) (hk : ∀ a, (k a).Mute) :
    (p >>= k).Mute := by
  change (p.bind k).Mute
  induction hp with
  | done a => exact hk a
  | fail f => exact .fail f
  | fetch _ ih => exact .fetch ih
  | release _ ih => exact .release ih

/-- Sectors may have been returned, but no byte is another. -/
theorem Mute.content_of_eval {p : Script α} (hp : p.Mute) {d d' : Medium} {a : α}
    (h : p.eval d = .ok (a, d')) : d'.content = d.content := by
  induction hp generalizing d with
  | done b =>
    cases h
    rfl
  | fail f => cases h
  | fetch _ ih =>
    rw [eval] at h
    split at h
    · exact ih _ h
    · cases h
  | release _ ih =>
    rw [eval] at h
    split at h
    · rename_i map _
      exact ih (d := { d with map }) h
    · cases h

end Script

open Script

theorem mute_fetchSector (sector : UInt32) : (fetchSector sector).Mute := .fetch fun s => .done s

theorem mute_releaseSector (sector : UInt32) : (releaseSector sector).Mute := .release (.done ())

namespace Walk

variable {α β : Type}

/-- A walk that neither writes nor asks for a sector, whatever its journal. -/
def Mute (w : Walk α) : Prop := ∀ j, (w.run.run j).Mute

theorem mute_pure (a : α) : (pure a : Walk α).Mute := fun _ => .done _

theorem mute_modify (f : Journal → Journal) : (modify f : Walk PUnit).Mute := fun _ => .done _

theorem mute_lift {p : Script α} (hp : p.Mute) : (liftM p : Walk α).Mute := by
  intro j
  rw [run_lift]
  exact hp.bind fun _ => Script.mute_pure _

theorem Mute.bind {w : Walk α} {k : α → Walk β} (hw : w.Mute) (hk : ∀ a, (k a).Mute) :
    (w >>= k).Mute := by
  intro j
  rw [ExceptT.run_bind, StateT.run_bind]
  refine (hw j).bind ?_
  rintro ⟨r, j'⟩
  cases r with
  | error refusal => exact .done _
  | ok a => exact hk a j'

theorem mute_fitEach (fit : UInt32 → Nat → Walk UInt32) (hfit : ∀ entry, (fit entry 0).Mute)
    (width : Nat) {n : Nat} (v : Vector UInt32 n) : (fitEach fit width 0 n v).Mute := by
  induction n with
  | zero => exact mute_pure v
  | succ n ih =>
    rw [fitEach, Nat.zero_sub, Nat.zero_min]
    exact (ih v.pop).bind fun _ => (hfit v.back).bind fun _ => mute_pure _

/-- Where no block is needed every block is returned. -/
theorem mute_fit (level : Nat) (block : UInt32) : (fit level block 0).Mute := by
  induction level generalizing block with
  | zero =>
    rw [fit, if_neg (by simp)]
    split
    · exact (mute_lift (mute_releaseSector block)).bind fun _ => mute_pure _
    · exact mute_pure block
  | succ level ih =>
    rw [fit]
    split
    · exact mute_pure block
    · rename_i hblock
      rw [openIndex, if_neg (by simpa using hblock)]
      refine Mute.bind ?_ fun opened => ?_
      · refine (mute_lift (mute_fetchSector block)).bind fun _ => ?_
        exact (mute_modify _).bind fun _ => mute_pure _
      · obtain ⟨block, entries⟩ := opened
        refine (mute_fitEach (fit level) ih (span level) entries).bind fun entries => ?_
        rw [closeIndex, if_pos rfl]
        exact (mute_lift (mute_releaseSector _)).bind fun _ => mute_pure _

end Walk

section Reading

theorem mute_blockUnder (level : Nat) (block : UInt32) (i : Nat) :
    (blockUnder level block i).Mute := by
  induction level generalizing block i with
  | zero =>
    rw [blockUnder]
    exact mute_pure _
  | succ level ih =>
    rw [blockUnder]
    split
    · exact mute_pure _
    · refine Mute.bind ?_ fun next => ih next _
      rw [pointerAt]
      refine (mute_fetchSector block).bind fun s => ?_
      split
      · exact mute_pure _
      · exact .fail _

variable (n : Inode)

theorem Inode.mute_sectorAt? (pos : Nat) : (n.sectorAt? pos).Mute := by
  rw [sectorAt?]
  split
  · exact mute_pure _
  · rw [block?]
    split
    · exact mute_blockUnder 0 _ 0
    · split
      · exact mute_blockUnder 1 _ _
      · exact mute_blockUnder 2 _ _

theorem Inode.mute_readPieces (pieces : List Piece) (sofar : Array UInt8) :
    (n.readPieces pieces sofar).Mute := by
  induction pieces generalizing sofar with
  | nil => exact mute_pure sofar
  | cons p rest ih =>
    rw [readPieces]
    refine (n.mute_sectorAt? p.start).bind fun sector => ?_
    cases sector with
    | none => exact mute_pure sofar
    | some sector => exact (mute_fetchSector sector).bind fun _ => ih _

theorem Inode.mute_readAt (offset len : Nat) : (n.readAt offset len).Mute := by
  rw [readAt]
  split
  · exact mute_pure _
  · exact n.mute_readPieces _ _

end Reading

/-- Cutting a file to nothing. -/
theorem Inode.mute_clear (n : Inode) : n.clear.Mute := by
  have hremap : (n.remap 0).Mute := by
    rw [remap, Nat.zero_sub, Nat.zero_sub]
    refine (Walk.mute_fitEach (Walk.fit 0) (Walk.mute_fit 0) 1 n.direct).bind fun _ => ?_
    refine (Walk.mute_fit 1 n.single).bind fun _ => ?_
    exact (Walk.mute_fit 2 n.double).bind fun _ => Walk.mute_pure _
  rw [clear]
  refine (hremap {}).bind ?_
  rintro ⟨r, journal⟩
  cases r with
  | error refusal => exact .fail _
  | ok m => exact mute_pure _

theorem Volume.mute_readInode (sector : UInt32) : (readInode sector).Mute := by
  refine (mute_fetchSector sector).bind fun s => ?_
  dsimp only
  split
  · exact mute_pure _
  · exact .fail _

theorem Handle.mute_reclaim (sector : UInt32) : (reclaim sector).Mute :=
  (Volume.mute_readInode sector).bind fun n => n.mute_clear.bind fun _ =>
    mute_releaseSector sector

namespace VolumeM

variable {α β : Type}

/-- An operation that neither writes nor asks for a sector, whatever the registry. -/
def Mute (v : VolumeM α) : Prop := ∀ g, (v.run g).Mute

theorem mute_pure (a : α) : (pure a : VolumeM α).Mute := fun _ => .done _

theorem Mute.bind {v : VolumeM α} {k : α → VolumeM β} (hv : v.Mute) (hk : ∀ a, (k a).Mute) :
    (v >>= k).Mute := by
  intro g
  rw [StateT.run_bind]
  exact (hv g).bind fun result => hk result.1 result.2

theorem mute_lift {p : Script α} (hp : p.Mute) : (liftM p : VolumeM α).Mute := by
  intro g
  have hrun : (liftM p : VolumeM α).run g = p >>= fun a => pure (a, g) := rfl
  rw [hrun]
  exact hp.bind fun _ => Script.mute_pure _

theorem mute_get : (get : VolumeM Registry).Mute := fun _ => .done _

theorem mute_modify (f : Registry → Registry) : (modify f : VolumeM PUnit).Mute :=
  fun _ => .done _

theorem mute_entry (sector : UInt32) : (entry sector).Mute := fun _ => .done _

theorem mute_setEntry (sector : UInt32) (e : OpenEntry) : (setEntry sector e).Mute :=
  fun _ => .done _

theorem mute_ofExcept (r : Except Fault α) : (ofExcept r).Mute := by
  intro g
  cases r with
  | ok a => exact .done _
  | error f => exact .fail f

/-- After a fault nothing is done. -/
theorem mute_fault (f : Fault) (k : α → VolumeM β) : (ofExcept (.error f) >>= k).Mute :=
  fun _ => .fail f

end VolumeM

open VolumeM

theorem Volume.mute_open (sector : UInt32) : (Volume.open sector).Mute := by
  refine mute_get.bind fun g => ?_
  cases g.get? sector with
  | some e => exact (mute_setEntry _ _).bind fun _ => mute_pure _
  | none =>
    exact (mute_lift (Volume.mute_readInode sector)).bind fun _ =>
      (mute_setEntry _ _).bind fun _ => mute_pure _

namespace Handle

variable (h : Handle)

theorem mute_reopen : h.reopen.Mute :=
  (mute_entry _).bind fun _ => (mute_setEntry _ _).bind fun _ => mute_pure _

theorem mute_remove : h.remove.Mute := (mute_entry _).bind fun _ => mute_setEntry _ _

theorem mute_deny : h.deny.Mute := by
  rw [deny]
  split
  · exact mute_fault _ _
  · refine (mute_entry _).bind fun e => ?_
    dsimp only
    split
    · exact mute_fault _ _
    · exact (mute_setEntry _ _).bind fun _ => mute_pure _

theorem mute_allow : h.allow.Mute := by
  rw [allow]
  split
  · exact mute_fault _ _
  · exact (mute_entry _).bind fun _ => (mute_ofExcept _).bind fun _ =>
      (mute_setEntry _ _).bind fun _ => mute_pure _

theorem mute_leave : h.leave.Mute := by
  refine (mute_entry _).bind fun e => (mute_ofExcept _).bind fun openers => ?_
  split
  · exact mute_setEntry _ _
  · refine (mute_modify _).bind fun _ => ?_
    split
    · exact mute_lift (mute_reclaim _)
    · exact mute_pure _

/-- Closing a handle, be it the last one on a file that goes, changes no byte of any sector. -/
theorem mute_close : h.close.Mute := by
  rw [close_eq]
  split
  · exact h.mute_allow.bind fun _ => h.mute_leave
  · exact h.mute_leave

end Handle

end SectorVolume
