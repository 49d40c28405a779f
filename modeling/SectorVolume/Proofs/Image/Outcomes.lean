import SectorVolume.Image
import SectorVolume.Proofs.Image.Disk
import SectorVolume.Proofs.Script.Devices
import SectorVolume.Proofs.Volume.Gives

/-!
How operations on an image end. Behind a cache the image shows a medium, and an operation that is
made of scripts ends as the scripts do on this medium. When the cache has been flushed the medium
is in the image.
-/

namespace SectorVolume

theorem Cache.defaultCapacity_pos : 0 < defaultCapacity := by decide

/-- A disk with a free map as a medium. -/
def RamDisk.medium (disk : RamDisk) (map : FreeMap) : Medium :=
  ⟨disk.sectors.size, fun s => disk.sectors[s.toNat]?.getD Sector.zero, map⟩

/-- The engine has an image that shows the medium through the cache. -/
def Engine.Carries (e : Engine ImageFile) (d : Medium) : Prop :=
  ∃ f : Engine RamDisk, Engine.Alike ImageFile.Copies e f ∧ f.store.Coherent ∧ f.medium = d

namespace Engine.Carries

variable {α : Type} {e : Engine ImageFile} {d d' : Medium}

theorem start {disk : RamDisk} (hnumbered : disk.sectors.size ≤ UInt32.size) (map : FreeMap)
    {capacity : Nat} (h : 0 < capacity) :
    Carries ⟨⟨Cache.empty capacity h, Metered.ofDevice disk.image⟩, map⟩ (disk.medium map) := by
  refine ⟨⟨⟨Cache.empty capacity h, Metered.ofDevice disk⟩, map⟩,
    ⟨⟨rfl, ⟨rfl, hnumbered⟩, rfl, rfl⟩, rfl⟩, Cached.coherent_empty capacity h _, ?_⟩
  have hcontent := funext (Cached.content_empty capacity h (Metered.ofDevice disk))
  exact congrArg (Medium.mk disk.sectors.size · map) hcontent

theorem run (h : e.Carries d) {p : Script α} {a : α} (hp : p.eval d = .ok (a, d')) :
    ∃ e', Engine.run p e = .ok a e' ∧ e'.Carries d' := by
  obtain ⟨f, halike, hcoherent, rfl⟩ := h
  obtain ⟨f', hrun, hcoherent', hmedium⟩ := Engine.run_of_eval_ok hcoherent hp
  obtain ⟨e', hrun', halike'⟩ :=
    Engine.matches_run ImageFile.mirrors_copies halike p a f' hrun
  exact ⟨e', hrun', f', halike', hcoherent', hmedium⟩

theorem size_image (h : e.Carries d) : e.store.disk.device.size = d.size * sectorSize := by
  obtain ⟨f, halike, _, rfl⟩ := h
  rw [halike.store.disk.device.eq_image, RamDisk.size_image]
  rfl

theorem flush (h : e.Carries d) : ∃ e', Engine.onStore Cached.flush e = .ok () e' ∧
    ∃ disk : RamDisk, e'.store.disk.device = disk.image ∧ disk.sectors.size ≤ UInt32.size ∧
      disk.medium d.map = d := by
  obtain ⟨f, halike, hcoherent, rfl⟩ := h
  obtain ⟨c, hflush, hc, hsize, hcontent, hdisk⟩ := Cached.exists_flush hcoherent
  obtain ⟨e', hrun, halike'⟩ := Engine.matches_flush ImageFile.mirrors_copies halike () _
    (Engine.onStore_of_ok hflush)
  have hdevice := halike'.store.disk.device
  refine ⟨e', hrun, c.disk.device, hdevice.eq_image, hdevice.numbered, ?_⟩
  have hsame := Cached.content_remounted hc hdisk 1 (by decide)
  rw [hcontent, funext (Cached.content_empty 1 (by decide) c.disk)] at hsame
  rw [RamDisk.medium, hsame]
  exact congrArg (Medium.mk · f.store.content f.map) hsize

end Engine.Carries

namespace Image

variable {α β : Type} {d d' : Medium} {Q : Except ImageError α → Medium → Prop}
  {P : Except ImageError β → Medium → Prop}

/-- Where an image shows the medium `d` the operation ends, without a fault, in one of the ways
given. -/
def Ends (m : ImageM α) (d : Medium) (Q : Except ImageError α → Medium → Prop) : Prop :=
  ∀ e : Engine ImageFile, e.Carries d → ∃ r e' d', m.run e = .ok r e' ∧ e'.Carries d' ∧ Q r d'

theorem ends_pure {a : α} (h : Q (.ok a) d) : Ends (pure a) d Q :=
  fun e he => ⟨.ok a, e, d, rfl, he, h⟩

theorem ends_throw {x : ImageError} (h : Q (.error x) d) : Ends (throw x : ImageM α) d Q :=
  fun e he => ⟨.error x, e, d, rfl, he, h⟩

theorem Ends.bind {m : ImageM α} {k : α → ImageM β} (h : Ends m d Q)
    (hok : ∀ a d', Q (.ok a) d' → Ends (k a) d' P)
    (herror : ∀ x d', Q (.error x) d' → P (.error x) d') : Ends (m >>= k) d P := by
  intro e he
  obtain ⟨r, e', d', hrun, he', hQ⟩ := h e he
  cases r with
  | error x => exact ⟨.error x, e', d', bind_of_ok hrun, he', herror x d' hQ⟩
  | ok a =>
    obtain ⟨r, e'', d'', hrun', he'', hP⟩ := hok a d' hQ e' he'
    exact ⟨r, e'', d'', (bind_of_ok hrun).trans hrun', he'', hP⟩

/-- A script is carried out as on the medium. -/
theorem ends_script {p : Script α} {a : α} (hp : p.eval d = .ok (a, d')) (h : Q (.ok a) d') :
    Ends (script p) d Q := by
  intro e he
  obtain ⟨e', hrun, he'⟩ := he.run hp
  exact ⟨.ok a, e', d', bind_of_ok hrun, he', h⟩

theorem ends_script_bind {p : Script α} {a : α} {k : α → ImageM β} (hp : p.eval d = .ok (a, d'))
    (hk : Ends (k a) d' P) : Ends (script p >>= k) d P := by
  have hscript : Ends (script p) d fun r m => r = .ok a ∧ m = d' := ends_script hp ⟨rfl, rfl⟩
  refine hscript.bind ?_ ?_
  · rintro _ _ ⟨⟨⟩, rfl⟩
    exact hk
  · rintro _ _ ⟨⟨⟩, _⟩

/-- Within a volume an operation begins with nothing open. -/
theorem eval_run' {v : VolumeM α} {a : α} {g g' : Registry} (hv : VolumeM.Gives v g d a g' d') :
    (v.run' g).eval d = .ok (a, d') := (Script.eval_bind_of_ok hv).trans rfl

/-- When the operation is over the image has what it showed through the cache. -/
theorem exists_withEngine {disk : RamDisk} (hnumbered : disk.sectors.size ≤ UInt32.size)
    {map : FreeMap} {m : ImageM α} (h : Ends m (disk.medium map) Q) :
    ∃ (r : Except ImageError α) (d' : Medium) (disk' : RamDisk),
      withEngine disk.image map m = (.ok r, disk'.image) ∧ Q r d' ∧
        disk'.sectors.size ≤ UInt32.size ∧ disk'.medium d'.map = d' := by
  obtain ⟨r, e, d', hrun, he, hQ⟩ :=
    h _ (Engine.Carries.start hnumbered map Cache.defaultCapacity_pos)
  obtain ⟨e', hflush, disk', hdevice, hnumbered', hmedium⟩ := he.flush
  refine ⟨r, d', disk', ?_, hQ, hnumbered', hmedium⟩
  simp only [withEngine, hrun, hflush, hdevice]

end Image

end SectorVolume
