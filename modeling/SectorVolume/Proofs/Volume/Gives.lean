import SectorVolume.Volume
import SectorVolume.Proofs.Script.Medium

/-!
What the operations on handles do on a medium and a registry. An operation that knows the registry
ends with an answer, a registry and a medium. Every handle reads its inode anew, so what it
answers is what the sector holds.
-/

namespace SectorVolume

namespace VolumeM

variable {α β : Type} {g g' g'' : Registry} {d d' d'' : Medium}

/-- An operation from a registry and a medium answers `a` and leaves `g'` and `d'` behind. -/
def Gives (v : VolumeM α) (g : Registry) (d : Medium) (a : α) (g' : Registry) (d' : Medium) :
    Prop :=
  (v.run g).eval d = .ok ((a, g'), d')

/-- An operation from a registry and a medium is a fault. -/
def Fails (v : VolumeM α) (g : Registry) (d : Medium) (f : Fault) : Prop :=
  (v.run g).eval d = .error f

theorem gives_pure (a : α) (g : Registry) (d : Medium) : Gives (pure a) g d a g d := rfl

theorem Gives.bind {v : VolumeM α} {k : α → VolumeM β} {a : α} {b : β} (hv : Gives v g d a g' d')
    (hk : Gives (k a) g' d' b g'' d'') : Gives (v >>= k) g d b g'' d'' := by
  rw [Gives, StateT.run_bind, Script.eval_bind_of_ok hv]
  exact hk

theorem Fails.bind {v : VolumeM α} {f : Fault} (hv : Fails v g d f) (k : α → VolumeM β) :
    Fails (v >>= k) g d f := by
  rw [Fails, StateT.run_bind, Script.eval_bind_of_error hv]

theorem Gives.bind_pure {v : VolumeM α} {a : α} (hv : Gives v g d a g' d') (f : α → β) :
    Gives (v >>= fun a => pure (f a)) g d (f a) g' d' := hv.bind (gives_pure (f a) g' d')

/-- A script within an operation leaves the registry alone. -/
theorem gives_lift {p : Script α} {a : α} (h : p.eval d = .ok (a, d')) (g : Registry) :
    Gives (liftM p) g d a g d' := by
  have hrun : (liftM p : VolumeM α).run g = p >>= fun a => pure (a, g) := rfl
  rw [Gives, hrun, Script.eval_bind_of_ok h]
  rfl

theorem gives_entry (sector : UInt32) (g : Registry) (d : Medium) :
    Gives (entry sector) g d (g.entry sector) g d := rfl

theorem gives_setEntry (sector : UInt32) (e : OpenEntry) (g : Registry) (d : Medium) :
    Gives (setEntry sector e) g d () (g.insert sector e) d := rfl

theorem gives_ofExcept (a : α) (g : Registry) (d : Medium) :
    Gives (ofExcept (.ok a)) g d a g d := rfl

theorem fails_ofExcept (f : Fault) (g : Registry) (d : Medium) :
    Fails (ofExcept (.error f) : VolumeM α) g d f := rfl

end VolumeM

/-- A sector that holds the inode of a file. -/
structure Medium.HasInode (d : Medium) (sector : UInt32) (n : Inode) : Prop where
  exists_sector : sector.toNat < d.size
  stored : d.content sector = n.toSector
  valid : n.isValid = true

namespace Medium.HasInode

variable {d : Medium} {sector : UInt32} {n : Inode}

theorem ofSector_eq (h : d.HasInode sector n) : Inode.ofSector (d.content sector) = n := by
  rw [h.stored, Inode.ofSector_toSector]

theorem eval_readInode (h : d.HasInode sector n) :
    (Volume.readInode sector).eval d = .ok (n, d) := by
  rw [Volume.readInode, Script.eval_bind_of_ok (Script.eval_fetchSector h.exists_sector),
    h.ofSector_eq, if_pos h.valid, Script.eval_pure]

end Medium.HasInode

/-- A file is made by putting an empty one into its sector, which then gets the length. -/
theorem Volume.eval_create {d d' : Medium} {sector : UInt32} {length : Nat} {isDir : Bool}
    {r : Except Refusal Inode} (hexists : sector.toNat < d.size)
    (heval : ((Inode.blank isDir).resize sector length).eval
      (d.put sector (Inode.blank isDir).toSector) = .ok (r, d')) :
    (create sector length isDir).eval d = .ok (r.map fun _ => (), d') := by
  rw [create]
  refine (Script.eval_bind_of_ok (Script.eval_putSector hexists _)).trans ?_
  exact (Script.eval_bind_of_ok heval).trans rfl

namespace Handle

open VolumeM

variable {h : Handle} {n : Inode} {d d' : Medium}

theorem eval_isDir (hn : d.HasInode h.sector n) : h.isDir.eval d = .ok (n.isDir, d) := by
  rw [isDir, inode, Script.eval_bind_of_ok hn.eval_readInode, Script.eval_pure]

theorem eval_length (hn : d.HasInode h.sector n) :
    h.length.eval d = .ok (n.length.toNat, d) := by
  rw [length, inode, Script.eval_bind_of_ok hn.eval_readInode, Script.eval_pure]

theorem eval_children (hn : d.HasInode h.sector n) :
    h.children.eval d = .ok (n.children.toNat, d) := by
  rw [children, inode, Script.eval_bind_of_ok hn.eval_readInode, Script.eval_pure]

theorem eval_updateChildren_of_ok (hn : d.HasInode h.sector n) {f : UInt32 → Except Fault UInt32}
    {children : UInt32} (hf : f n.children = .ok children) :
    (h.updateChildren f).eval d = .ok ((), d.put h.sector { n with children }.toSector) := by
  apply Script.eval_updateSector_of_ok hn.exists_sector
  simp only [hn.ofSector_eq, hf]
  rfl

theorem eval_updateChildren_of_error (hn : d.HasInode h.sector n)
    {f : UInt32 → Except Fault UInt32} {fault : Fault} (hf : f n.children = .error fault) :
    (h.updateChildren f).eval d = .error fault := by
  apply Script.eval_updateSector_of_error hn.exists_sector
  simp only [hn.ofSector_eq, hf]
  rfl

theorem eval_sectorAt? (hn : d.HasInode h.sector n) {pos : Nat} {r : Option UInt32}
    (hr : (n.sectorAt? pos).eval d = .ok (r, d')) : (h.sectorAt? pos).eval d = .ok (r, d') := by
  rw [sectorAt?, inode, Script.eval_bind_of_ok hn.eval_readInode, hr]

theorem eval_readAt (hn : d.HasInode h.sector n) {offset len : Nat} {data : Array UInt8}
    (hr : (n.readAt offset len).eval d = .ok (data, d')) :
    (h.readAt offset len).eval d = .ok (data, d') := by
  rw [readAt, inode, Script.eval_bind_of_ok hn.eval_readInode, hr]

theorem eval_resize (hn : d.HasInode h.sector n) {length : Nat} {r : Except Refusal Inode}
    (hr : (n.resize h.sector length).eval d = .ok (r, d')) :
    (h.resize length).eval d = .ok (r.map fun _ => (), d') := by
  rw [resize, inode, Script.eval_bind_of_ok hn.eval_readInode, Script.eval_bind_of_ok hr,
    Script.eval_pure]

theorem eval_grown_of_le (hn : d.HasInode h.sector n) {stop : Nat} (hle : stop ≤ n.length.toNat) :
    (h.grown stop).eval d = .ok (.ok n, d) := by
  rw [grown, inode, Script.eval_bind_of_ok hn.eval_readInode, if_pos hle, Script.eval_pure]

theorem eval_grown_of_lt (hn : d.HasInode h.sector n) {stop : Nat} (hlt : n.length.toNat < stop) :
    (h.grown stop).eval d = (n.resize h.sector stop).eval d := by
  rw [grown, inode, Script.eval_bind_of_ok hn.eval_readInode, if_neg (Nat.not_le.2 hlt),
    Script.eval_bind_of_ok hn.eval_readInode]

section WriteAt

variable {g : Registry} {offset : Nat} {data : Array UInt8}

theorem gives_isDenied (h : Handle) (g : Registry) (d : Medium) :
    Gives h.isDenied g d (decide (0 < (g.entry h.sector).denials)) g d :=
  (gives_entry h.sector g d).bind_pure _

/-- Nothing is written where there is nothing to write, where writing is denied, or where the
range leaves the numbers. -/
theorem gives_writeAt_of_idle (hidle : data.isEmpty = true ∨ 0 < (g.entry h.sector).denials ∨
    wordLimit ≤ offset + data.size) : Gives (h.writeAt offset data) g d 0 g d := by
  refine (gives_isDenied h g d).bind ?_
  by_cases hskip : (data.isEmpty || decide (0 < (g.entry h.sector).denials)) = true
  · rw [if_pos hskip]
    exact gives_pure 0 g d
  · have hlimit : wordLimit ≤ offset + data.size := by
      rcases hidle with hempty | hdenied | hlimit
      · exact absurd (by simp [hempty]) hskip
      · exact absurd (by simp [hdenied]) hskip
      · exact hlimit
    rw [if_neg hskip, if_pos hlimit]
    exact gives_pure 0 g d

/-- What is written otherwise depends on whether the file can grow. -/
theorem gives_writeAt_of_grown (hdata : data.isEmpty = false)
    (hdenials : (g.entry h.sector).denials = 0) (hlimit : offset + data.size < wordLimit)
    {r : Except Refusal Inode} {written : Nat} {d'' : Medium}
    (hgrown : (h.grown (offset + data.size)).eval d = .ok (r, d'))
    (hwrite : Script.eval
      (match r with
        | .error _ => pure 0
        | .ok n => n.writeAt offset data) d' = .ok (written, d'')) :
    Gives (h.writeAt offset data) g d written g d'' := by
  refine (gives_isDenied h g d).bind ?_
  have hskip : (data.isEmpty || decide (0 < (g.entry h.sector).denials)) = false := by
    simp [hdata, hdenials]
  rw [if_neg (by rw [hskip]; decide), if_neg (by omega)]
  refine (gives_lift hgrown g).bind ?_
  cases r with
  | error refusal => exact gives_lift hwrite g
  | ok n => exact gives_lift hwrite g

end WriteAt

end Handle

end SectorVolume
