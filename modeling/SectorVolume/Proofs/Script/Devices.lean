import SectorVolume.Script
import SectorVolume.Proofs.Cache.Devices

/-!
One script on two devices. An engine on a device that does what another one does answers as the
engine on the other does, and hands out the same sectors.
-/

namespace SectorVolume

namespace Engine

variable {D E α : Type} {R : D → E → Prop} {e : Engine D} {f : Engine E}

structure Alike (R : D → E → Prop) (e : Engine D) (f : Engine E) : Prop where
  store : Cached.Alike R e.store f.store
  map : e.map = f.map

theorem matches_onStore {m : EStateM Fault (Cached D) α} {n : EStateM Fault (Cached E) α}
    (h : Alike R e f) (hm : Matches (Cached.Alike R) m n e.store f.store) :
    Matches (Alike R) (onStore m) (onStore n) e f := by
  intro a f' hrun
  cases hn : n f.store with
  | error g c => simp [onStore, hn] at hrun
  | ok b c =>
    simp only [onStore, hn, EStateM.Result.ok.injEq] at hrun
    obtain ⟨rfl, rfl⟩ := hrun
    obtain ⟨c', hm', hc⟩ := hm b c hn
    refine ⟨⟨c', e.map⟩, ?_, hc, h.map⟩
    simp only [onStore, hm']

theorem matches_alloc (h : Alike R e f) (count : Nat) :
    Matches (Alike R) (alloc count) (alloc count) e f := by
  intro r f' hrun
  simp only [alloc, EStateM.Result.ok.injEq] at hrun
  obtain ⟨rfl, rfl⟩ := hrun
  refine ⟨⟨e.store, (f.map.alloc count).2⟩, ?_, h.store, rfl⟩
  simp only [alloc, h.map]

theorem matches_release (h : Alike R e f) (s : UInt32) (count : Nat) :
    Matches (Alike R) (release s count) (release s count) e f := by
  intro u f' hrun
  cases hmap : f.map.release s count with
  | error g => simp [release, hmap] at hrun
  | ok map =>
    simp only [release, hmap, EStateM.Result.ok.injEq] at hrun
    obtain ⟨-, rfl⟩ := hrun
    refine ⟨⟨e.store, map⟩, ?_, h.store, rfl⟩
    simp only [release, h.map, hmap]

variable [BlockDevice D] [BlockDevice E]

theorem matches_perform (hm : Mirrors R fun _ _ => True) (h : Alike R e f) (s : UInt32)
    (a : Access α) : Matches (Alike R) (onStore (Cached.perform s a))
      (onStore (Cached.perform s a)) e f :=
  matches_onStore h (Cached.matches_perform hm h.store (fun _ _ _ _ _ => trivial) a)

/-- Whatever a script answers on the second device it answers on the first one. -/
theorem matches_run (hm : Mirrors R fun _ _ => True) (h : Alike R e f) (p : Script α) :
    Matches (Alike R) (run p) (run p) e f := by
  induction p generalizing e f with
  | done a => exact Matches.pure h a
  | fail g => rintro a f' ⟨⟩
  | fetch s next ih => exact (matches_perform hm h s _).bind fun d _ _ _ h' => ih d h'
  | put s data next ih => exact (matches_perform hm h s _).bind fun _ _ _ _ h' => ih h'
  | update s g next ih => exact (matches_perform hm h s _).bind fun _ _ _ _ h' => ih h'
  | alloc next ih => exact (matches_alloc h 1).bind fun r _ _ _ h' => ih r h'
  | release s next ih => exact (matches_release h s 1).bind fun _ _ _ _ h' => ih h'

theorem matches_flush (hm : Mirrors R fun _ _ => True) (h : Alike R e f) :
    Matches (Alike R) (onStore Cached.flush) (onStore Cached.flush) e f :=
  matches_onStore h (Cached.matches_flush hm h.store fun _ _ _ _ => trivial)

end Engine

end SectorVolume
