import SectorVolume.Proofs.Image.Outcomes
import SectorVolume.Proofs.Script.Silent

/-!
Reading a file from an image of any bytes. The reader sees the complete sectors of the image that
can be numbered, as a disk that is never written; whatever is left over at the end of the image it
does not see.
-/

namespace SectorVolume

namespace ImageFile

/-- A byte of the file; behind its end there are zeros. -/
def byte (f : ImageFile) (i : Nat) : UInt8 := f.bytes.data[i]?.getD 0

/-- The bytes of a sector, wherever it is. -/
def sectorBytes (f : ImageFile) (i : Nat) : Sector :=
  Vector.ofFn fun k => f.byte (i * sectorSize + k.val)

/-- The complete sectors that have a number. -/
def disk (f : ImageFile) : RamDisk :=
  ⟨Array.ofFn fun i : Fin (min f.sectors UInt32.size) => f.sectorBytes i.val⟩

/-- What can be read from the disk can be read from the file. -/
def Backs (f : ImageFile) (d : RamDisk) : Prop := ∀ i s, d.sector i = .ok s → f.sector i = .ok s

@[simp] theorem size_disk (f : ImageFile) : f.disk.sectors.size = min f.sectors UInt32.size :=
  Array.size_ofFn

theorem getElem_disk (f : ImageFile) {i : Nat} (hi : i < f.disk.sectors.size) :
    f.disk.sectors[i] = f.sectorBytes i := by
  simp only [disk, Array.getElem_ofFn]

theorem sector_eq {f : ImageFile} {i : Nat} (hi : i < f.sectors) (hnumber : i < UInt32.size) :
    f.sector i = .ok (f.sectorBytes i) := by
  have hend : i * sectorSize + sectorSize ≤ f.bytes.size := by
    have hsize : f.sectors * sectorSize ≤ f.size := Nat.div_mul_le_self _ _
    have hlast : (i + 1) * sectorSize ≤ f.sectors * sectorSize := Nat.mul_le_mul_right _ hi
    rw [Nat.add_one_mul] at hlast
    exact Nat.le_trans hlast hsize
  rw [sector, position_of_numbered hnumber]
  change (if h : _ then _ else _) = _
  rw [dif_pos hend]
  refine congrArg Except.ok (Vector.ext fun k hk => ?_)
  have hlt : i * sectorSize + k < f.bytes.data.size :=
    Nat.lt_of_lt_of_le (Nat.add_lt_add_left hk _) hend
  rw [Vector.getElem_ofFn, sectorBytes, Vector.getElem_ofFn, byte, Array.getElem?_eq_getElem hlt]
  rfl

theorem backs_disk (f : ImageFile) : f.Backs f.disk := by
  intro i s hread
  rw [RamDisk.sector] at hread
  split at hread
  · rename_i t hget
    obtain ⟨hi, rfl⟩ := Array.getElem?_eq_some_iff.1 hget
    cases hread
    rw [getElem_disk]
    rw [size_disk, Nat.lt_min] at hi
    exact sector_eq hi.1 hi.2
  · cases hread

theorem mirrors_backs : Mirrors Backs fun _ _ => False where
  read h hread := h _ _ hread
  write _ hnone := hnone.elim

theorem content_medium {f : ImageFile} {s : UInt32} (hs : s.toNat < f.sectors) (map : FreeMap) :
    (f.disk.medium map).content s = f.sectorBytes s.toNat := by
  have hlt : s.toNat < f.disk.sectors.size := by
    rw [size_disk, Nat.lt_min]
    exact ⟨hs, s.toNat_lt⟩
  change f.disk.sectors[s.toNat]?.getD Sector.zero = _
  rw [Array.getElem?_eq_getElem hlt, Option.getD_some, getElem_disk]

theorem lt_size_medium {f : ImageFile} {s : UInt32} (hs : s.toNat < f.sectors) (map : FreeMap) :
    s.toNat < (f.disk.medium map).size := by
  rw [RamDisk.medium, size_disk, Nat.lt_min]
  exact ⟨hs, s.toNat_lt⟩

end ImageFile

/-- The engine shows the medium behind a cache without changes, and can read all of it. -/
def Engine.Sees (e : Engine ImageFile) (d : Medium) : Prop :=
  ∃ f : Engine RamDisk, Engine.Alike ImageFile.Backs e f ∧ f.store.Coherent ∧
    f.store.Silent f.store.disk.device ∧ f.medium = d

namespace Engine.Sees

variable {α : Type} {e : Engine ImageFile} {d d' : Medium}

theorem start (f : ImageFile) (map : FreeMap) {capacity : Nat} (h : 0 < capacity) :
    Sees ⟨⟨Cache.empty capacity h, Metered.ofDevice f⟩, map⟩ (f.disk.medium map) := by
  refine ⟨⟨⟨Cache.empty capacity h, Metered.ofDevice f.disk⟩, map⟩,
    ⟨⟨rfl, f.backs_disk, rfl, rfl⟩, rfl⟩, Cached.coherent_empty capacity h _,
    Cached.silent_empty h f.disk, ?_⟩
  have hcontent := funext (Cached.content_empty capacity h (Metered.ofDevice f.disk))
  exact congrArg (Medium.mk f.disk.sectors.size · map) hcontent

theorem run (h : e.Sees d) {p : Script α} (hp : p.Mute) {a : α} (heval : p.eval d = .ok (a, d')) :
    ∃ e', Engine.run p e = .ok a e' ∧ e'.Sees d' := by
  obtain ⟨f, halike, hcoherent, hsilent, rfl⟩ := h
  obtain ⟨f', hrun, hcoherent', hmedium⟩ := Engine.run_of_eval_ok hcoherent heval
  obtain ⟨e', hrun', halike'⟩ :=
    Engine.matches_run_of_mute ImageFile.mirrors_backs halike hsilent hp a f' hrun
  have hsilent' := Engine.preserves_run _ hp f hsilent
  rw [stateAfter_of_ok hrun] at hsilent'
  exact ⟨e', hrun', f', halike', hcoherent', hsilent'.device.symm ▸ hsilent', hmedium⟩

end Engine.Sees

namespace Image

/-- What reading does once the inode is known to be one. -/
def readWhole (sector : UInt32) : VolumeM (Array UInt8) := do
  let h ← Volume.open sector
  let len ← h.length
  let data ← h.readAt 0 len
  h.close
  return data ++ Array.replicate (len - data.size) 0

theorem readFile_eq (sector : UInt32) : readFile sector =
    script (fetchSector sector) >>= fun s =>
      if (Inode.ofSector s).isValid then volume (readWhole sector) else throw (.noInode sector) :=
  rfl

/-- What is read is filled up with zeros. -/
theorem eval_readWhole {d : Medium} {x : UInt32} {n : Inode} (hn : d.HasInode x n)
    {data : Array UInt8} (hread : (n.readAt 0 n.length.toNat).eval d = .ok (data, d)) :
    ((readWhole x).run' Table.empty).eval d =
      .ok (data ++ Array.replicate (n.length.toNat - data.size) 0, d) := by
  obtain ⟨g, hopen, hcounts⟩ := gives_open (x := x) hn (Registry.Counts.empty fun _ => false)
    fun _ => rfl
  obtain ⟨g', hclose, _⟩ := gives_close_of_last hcounts rfl (show d = d from rfl)
  have hlength := VolumeM.gives_lift (Handle.eval_length (h := ⟨x, false⟩) hn) g
  have hdata := VolumeM.gives_lift (Handle.eval_readAt (h := ⟨x, false⟩) hn hread) g
  exact eval_run'
    (hopen.bind (hlength.bind (hdata.bind (hclose.bind (VolumeM.gives_pure _ _ _)))))

section Silent

variable {α β : Type} (device : ImageFile)

/-- An operation on an image that changes nothing. -/
abbrev Silent (m : ImageM α) : Prop :=
  Preserves (fun e : Engine ImageFile => e.store.Silent device) m.run

variable {device}

theorem Silent.bind {m : ImageM α} {k : α → ImageM β} (hm : Silent device m)
    (hk : ∀ a, Silent device (k a)) : Silent device (m >>= k) := by
  refine Preserves.bind hm fun r => ?_
  cases r with
  | ok a => exact hk a
  | error x => exact preserves_pure _

theorem silent_script {p : Script α} (hp : p.Mute) : Silent device (script p) :=
  Preserves.bind (Engine.preserves_run device hp) fun _ => preserves_pure _

theorem mute_run' {v : VolumeM α} (hv : v.Mute) : (v.run' Table.empty).Mute :=
  (hv Table.empty).bind fun _ => Script.mute_pure _

theorem silent_volume {v : VolumeM α} (hv : v.Mute) : Silent device (volume v) :=
  silent_script (mute_run' hv)

theorem mute_readWhole (sector : UInt32) : (readWhole sector).Mute := by
  refine (Volume.mute_open sector).bind fun h => ?_
  have hlength : (Handle.length h).Mute :=
    (Volume.mute_readInode h.sector).bind fun _ => Script.mute_pure _
  have hread : ∀ len, (Handle.readAt h 0 len).Mute := fun len =>
    (Volume.mute_readInode h.sector).bind fun n => n.mute_readAt 0 len
  exact (VolumeM.mute_lift hlength).bind fun len => (VolumeM.mute_lift (hread len)).bind fun _ =>
    (Handle.mute_close h).bind fun _ => VolumeM.mute_pure _

/-- Nothing is written to read a file. -/
theorem silent_readFile (sector : UInt32) : Silent device (readFile sector) := by
  rw [readFile_eq]
  refine (silent_script (mute_fetchSector sector)).bind fun s => ?_
  split
  · exact silent_volume (mute_readWhole sector)
  · exact preserves_pure _

theorem image_of_silent {image : ImageFile} {map : FreeMap} {m : ImageM α}
    (h : Silent image m) : (withEngine image map m).2 = image := by
  have hafter := h ⟨⟨Cache.empty _ Cache.defaultCapacity_pos, Metered.ofDevice image⟩, map⟩
    (Cached.silent_empty _ image)
  have hclose : ∀ e : Engine ImageFile, e.store.Silent image →
      Engine.onStore Cached.flush e = .ok () e := by
    intro e he
    simp only [Engine.onStore, Cached.flush_of_silent he]
  rw [stateAfter] at hafter
  cases hrun : m.run ⟨⟨Cache.empty _ Cache.defaultCapacity_pos, Metered.ofDevice image⟩, map⟩ with
  | ok r e =>
    rw [hrun] at hafter
    simp only [withEngine, hrun, hclose e hafter]
    exact hafter.device
  | error f e =>
    rw [hrun] at hafter
    simp only [withEngine, hrun, hclose e hafter]
    exact hafter.device

end Silent

end Image

end SectorVolume
