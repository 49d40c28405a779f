import SectorVolume.Cached.Step
import SectorVolume.Proofs.Cache.Bytes
import SectorVolume.Proofs.Cache.Devices

/-!
The requests that a cache and a plain disk both answer. What a plain disk does is told in bytes:
the disk is a list of sectors, a sector a row of bytes, and a request cuts a range out of one row
or puts bytes in its place. That is what the cache has to imitate; a request with its arguments in
range always succeeds.
-/

namespace SectorVolume

/-- A request for one sector, with the type of its reply. -/
inductive Request : Type → Type 1
  | read (len : Nat) : Request (Array UInt8)
  | readAt (offset len : Nat) : Request (Array UInt8)
  | write (data : Array UInt8) : Request Unit
  | writeAt (offset : Nat) (data : Array UInt8) : Request Unit
  | map {α β : Type} [Plain α] (offset : Nat) (f : α → β) : Request β
  | mapMut {α β : Type} [Plain α] (offset : Nat) (f : α → β × α) : Request β
  | load (α : Type) [Plain α] (offset : Nat) : Request α
  | store {α : Type} [Plain α] (offset : Nat) (a : α) : Request Unit

/-- A value of a type may stand at an offset. -/
def Plain.Fits (α : Type) [Plain α] (offset : Nat) : Prop :=
  Plain.size α + offset ≤ sectorSize ∧ offset % Plain.align α = 0

namespace Access

theorem checkRange_of_le {offset len : Nat} (h : offset + len ≤ sectorSize) :
    checkRange offset len = .ok () := by
  have hword : offset + len < wordLimit := by
    simp only [sectorSize, wordLimit] at *
    omega
  rw [checkRange, checkedAdd_eq_ok_iff.2 ⟨hword, rfl⟩]
  exact if_pos h

theorem overlay_of_size_eq {data : Array UInt8} (h : data.size = sectorSize) (s : Sector) :
    s.overlay 0 data = ⟨data, h⟩ := Sector.overlay_whole s ⟨data, h⟩

theorem exists_readAt {offset len : Nat} (h : offset + len ≤ sectorSize) :
    ∃ a, readAt offset len = .ok a ∧ a.Honest ∧ ∀ s, a.body s = .ok (s.bytes offset len, s) := by
  refine ⟨_, by rw [readAt, checkRange_of_le h]; rfl, ⟨?_, ?_⟩, fun s => rfl⟩
  · intro hneeds
    exact absurd hneeds (by simp)
  · intro _ s r t hbody
    simp only [Except.ok.injEq, Prod.mk.injEq] at hbody
    exact hbody.2.symm

theorem exists_writeAt {offset : Nat} {data : Array UInt8} (h : offset + data.size ≤ sectorSize) :
    ∃ a, writeAt offset data = .ok a ∧ a.Honest ∧
      ∀ s, a.body s = .ok ((), s.overlay offset data) := by
  refine ⟨_, by rw [writeAt, checkRange_of_le h]; rfl, ⟨?_, ?_⟩, fun s => rfl⟩
  · intro hneeds
    have hsize : data.size = sectorSize := by simpa using hneeds
    obtain rfl : offset = 0 := by omega
    exact ⟨(), _, fun s => congrArg (fun t => Except.ok ((), t)) (overlay_of_size_eq hsize s)⟩
  · intro hwrites
    exact absurd hwrites (by simp)

section Typed

variable {α β : Type} [Plain α] {offset : Nat}

section Body

variable (h : Plain.Fits α offset) (s : Sector)

theorem body_view (f : α → β) : (view offset f).body s = .ok (f (s.decodeAt α offset h.1), s) :=
  Sector.withPlace_of_aligned offset _ h.1 h.2

theorem body_load : (load α offset).body s = .ok (s.decodeAt α offset h.1, s) := body_view h s id

theorem body_modify (f : α → β × α) : (modify offset fun a => .ok (f a)).body s =
    .ok ((f (s.decodeAt α offset h.1)).1,
      s.encodeAt offset (f (s.decodeAt α offset h.1)).2) :=
  Sector.withPlace_of_aligned offset _ h.1 h.2

include h in
theorem body_store (a : α) : (store offset a).body s = .ok ((), s.encodeAt offset a) :=
  Sector.withPlace_of_aligned offset _ h.1 h.2

end Body

theorem honest_view (h : Plain.Fits α offset) (f : α → β) : (view offset f).Honest := by
  refine ⟨?_, ?_⟩
  · intro hneeds
    exact absurd hneeds (by simp [view])
  · intro _ s r t hrun
    rw [body_view h, Except.ok.injEq, Prod.mk.injEq] at hrun
    exact hrun.2.symm

theorem honest_modify (offset : Nat) (f : α → β × α) :
    (modify offset fun a => .ok (f a)).Honest := by
  refine ⟨?_, ?_⟩
  · intro hneeds
    exact absurd hneeds (by simp [modify])
  · intro hwrites
    exact absurd hwrites (by simp [modify])

theorem honest_store (h : Plain.Fits α offset) (a : α) : (store offset a).Honest := by
  refine ⟨?_, ?_⟩
  · intro hneeds
    obtain ⟨rfl, hsize⟩ : offset = 0 ∧ Plain.size α = sectorSize := by
      simpa [store] using hneeds
    have hencoded : (Plain.encode a).toArray.size = sectorSize := by simpa using hsize
    exact ⟨(), _, fun s => by
      rw [body_store h, Sector.encodeAt, overlay_of_size_eq hencoded]⟩
  · intro hwrites
    exact absurd hwrites (by simp [store])

end Typed

end Access

namespace Request

variable {α : Type}

/-- What a request does to its sector, after its checks. -/
def access {α : Type} : Request α → Except Fault (Access α)
  | read len => Access.read len
  | readAt offset len => Access.readAt offset len
  | write data => Access.write data
  | writeAt offset data => Access.writeAt offset data
  | map offset f => .ok (Access.view offset f)
  | mapMut offset f => .ok (Access.modify offset fun a => .ok (f a))
  | load α offset => .ok (Access.load α offset)
  | store offset a => .ok (Access.store offset a)

def InRange {α : Type} : Request α → Prop
  | read len => len = sectorSize
  | readAt offset len => offset + len ≤ sectorSize
  | write data => data.size = sectorSize
  | writeAt offset data => offset + data.size ≤ sectorSize
  | @map α _ _ offset _ => Plain.Fits α offset
  | @mapMut α _ _ offset _ => Plain.Fits α offset
  | load α offset => Plain.Fits α offset
  | @store α _ offset _ => Plain.Fits α offset

/-- What a request in range answers about the bytes of its sector, and the bytes that it leaves
there. -/
def onBytes {α : Type} : Request α → List UInt8 → α × List UInt8
  | read _, bytes => (bytes.toArray, bytes)
  | readAt offset len, bytes => ((slice bytes offset len).toArray, bytes)
  | write data, _ => ((), data.toList)
  | writeAt offset data, bytes => ((), splice bytes offset data.toList)
  | @map α _ _ offset f, bytes => (f (Plain.ofBytes α (slice bytes offset (Plain.size α))), bytes)
  | @mapMut α _ _ offset f, bytes =>
    let result := f (Plain.ofBytes α (slice bytes offset (Plain.size α)))
    (result.1, splice bytes offset (Plain.toBytes result.2))
  | load α offset, bytes => (Plain.ofBytes α (slice bytes offset (Plain.size α)), bytes)
  | store offset a, bytes => ((), splice bytes offset (Plain.toBytes a))

/-- The access of a request does with every sector what the request does with its bytes. -/
structure Told (r : Request α) (a : Access α) : Prop extends a.Honest where
  body : ∀ s, ∃ t, a.body s = .ok ((r.onBytes s.toList).1, t) ∧ t.toList = (r.onBytes s.toList).2

section Told

variable {offset : Nat}

theorem told_readAt {len : Nat} (h : offset + len ≤ sectorSize) :
    ∃ a, (readAt offset len).access = .ok a ∧ (readAt offset len).Told a := by
  obtain ⟨a, haccess, ha, hbody⟩ := Access.exists_readAt h
  refine ⟨a, haccess, ha, fun s => ⟨s, ?_, rfl⟩⟩
  rw [hbody, onBytes, ← Sector.toList_bytes, Array.toArray_toList]

theorem told_writeAt {data : Array UInt8} (h : offset + data.size ≤ sectorSize) :
    ∃ a, (writeAt offset data).access = .ok a ∧ (writeAt offset data).Told a := by
  obtain ⟨a, haccess, ha, hbody⟩ := Access.exists_writeAt h
  exact ⟨a, haccess, ha, fun s => ⟨_, hbody s, s.toList_overlay offset h⟩⟩

/-- A read of a whole sector is one of all its bytes from the first on. -/
theorem told_read : ∃ a, (read sectorSize).access = .ok a ∧ (read sectorSize).Told a := by
  obtain ⟨a, haccess, ha⟩ := told_readAt (Nat.le_of_eq (Nat.zero_add sectorSize))
  refine ⟨a, haccess, ha.toHonest, fun s => ?_⟩
  have hwhole : slice s.toList 0 sectorSize = s.toList := by
    rw [slice, List.drop_zero]
    exact List.take_of_length_le (Nat.le_of_eq s.length_toList)
  obtain ⟨t, hbody, ht⟩ := ha.body s
  rw [onBytes, hwhole] at hbody
  exact ⟨t, hbody, ht⟩

theorem told_write {data : Array UInt8} (h : data.size = sectorSize) :
    ∃ a, (write data).access = .ok a ∧ (write data).Told a := by
  have hfits : 0 + data.size ≤ sectorSize := Nat.le_of_eq ((Nat.zero_add _).trans h)
  obtain ⟨a, haccess, ha⟩ := told_writeAt hfits
  refine ⟨a, by rw [access, Access.write, if_pos h]; exact haccess, ha.toHonest, fun s => ?_⟩
  have hwhole : splice s.toList 0 data.toList = data.toList := by
    have hlength : s.toList.length ≤ 0 + data.toList.length := by
      rw [s.length_toList, Array.length_toList]
      omega
    rw [splice, List.take_zero, List.nil_append, List.drop_of_length_le hlength, List.append_nil]
  obtain ⟨t, hbody, ht⟩ := ha.body s
  rw [onBytes, hwhole] at ht
  exact ⟨t, hbody, ht⟩

variable {β γ : Type} [Plain β] (h : Plain.Fits β offset)
include h

theorem told_map (f : β → γ) : (map offset f).Told (Access.view offset f) where
  toHonest := Access.honest_view h f
  body s := ⟨s, by rw [Access.body_view h, s.decodeAt_eq_ofBytes]; rfl, rfl⟩

theorem told_mapMut (f : β → γ × β) :
    (mapMut offset f).Told (Access.modify offset fun a => .ok (f a)) where
  toHonest := Access.honest_modify offset f
  body s := by
    have hvalue := s.decodeAt_eq_ofBytes offset h.1
    refine ⟨s.encodeAt offset (f (s.decodeAt β offset h.1)).2, ?_, ?_⟩
    · rw [Access.body_modify h, hvalue]
      rfl
    · rw [s.toList_encodeAt offset _ h.1, hvalue]
      rfl

theorem told_store (a : β) : (store offset a).Told (Access.store offset a) where
  toHonest := Access.honest_store h a
  body s := ⟨_, Access.body_store h s a, s.toList_encodeAt offset a h.1⟩

end Told

/-- A request in range passes its checks, and then cannot fail. -/
theorem exists_access {r : Request α} (h : r.InRange) : ∃ a, r.access = .ok a ∧ r.Told a := by
  cases r with
  | read len =>
    obtain rfl : len = sectorSize := h
    exact told_read
  | readAt offset len => exact told_readAt h
  | write data => exact told_write h
  | writeAt offset data => exact told_writeAt h
  | map offset f => exact ⟨_, rfl, told_map h f⟩
  | mapMut offset f => exact ⟨_, rfl, told_mapMut h f⟩
  | load α offset => exact ⟨_, rfl, (told_map h id).toHonest, (told_map h id).body⟩
  | store offset a => exact ⟨_, rfl, told_store h a⟩

end Request

/-- Two disks, before a cache comes in front of the first one. -/
structure Disks where
  managed : Metered RamDisk
  foreign : Metered RamDisk

/-- The number of sectors of either disk. -/
def Disks.size (d : Disks) : Target → Nat
  | .managed => d.managed.device.sectors.size
  | .foreign => d.foreign.device.sectors.size

/-- A plain disk is a list of sectors, and a sector a row of bytes. -/
abbrev PlainDisk := List (List UInt8)

namespace PlainDisk

/-- A request for a sector is answered from its bytes, and the sector gets the bytes that it
leaves. -/
def ask {α : Type} (r : Request α) (sector : Nat) : EStateM Fault PlainDisk α := fun d =>
  match d[sector]? with
  | some bytes => .ok (r.onBytes bytes).1 (d.set sector (r.onBytes bytes).2)
  | none => .error .outOfBounds d

theorem ask_of_getElem? {α : Type} (r : Request α) {d : PlainDisk} {sector : Nat}
    {bytes : List UInt8} (h : d[sector]? = some bytes) :
    ask r sector d = .ok (r.onBytes bytes).1 (d.set sector (r.onBytes bytes).2) := by
  simp only [ask, h]

end PlainDisk

namespace RamDisk

variable (d : RamDisk) {i : Nat}

/-- The bytes on a disk. -/
def bytes : PlainDisk := d.sectors.toList.map Vector.toList

@[simp] theorem length_bytes : d.bytes.length = d.sectors.size := by simp [bytes]

theorem getElem?_bytes (i : Nat) : d.bytes[i]? = d.sectors[i]?.map Vector.toList := by
  simp [bytes]

theorem getElem?_bytes_of_lt (h : i < d.sectors.size) :
    d.bytes[i]? = some (d.sectors[i]?.getD Sector.zero).toList := by
  rw [getElem?_bytes, Array.getElem?_eq_getElem h]
  rfl

theorem bytes_setIfInBounds (i : Nat) (s : Sector) :
    bytes ⟨d.sectors.setIfInBounds i s⟩ = d.bytes.set i s.toList := by
  simp [bytes, List.map_set]

end RamDisk

/-- Two plain disks. -/
structure PlainDisks where
  managed : PlainDisk
  foreign : PlainDisk

namespace PlainDisks

/-- The number of sectors of either disk. -/
def size (d : PlainDisks) : Target → Nat
  | .managed => d.managed.length
  | .foreign => d.foreign.length

def ask {α : Type} (r : Request α) (target : Target) (sector : Nat) :
    EStateM Fault PlainDisks α := fun ⟨managed, foreign⟩ =>
  match target with
  | .managed =>
    match PlainDisk.ask r sector managed with
    | .ok reply managed => .ok reply ⟨managed, foreign⟩
    | .error f managed => .error f ⟨managed, foreign⟩
  | .foreign =>
    match PlainDisk.ask r sector foreign with
    | .ok reply foreign => .ok reply ⟨managed, foreign⟩
    | .error f foreign => .error f ⟨managed, foreign⟩

variable {α : Type} {request : Request α} {sector : Nat} {reply : α} {d : PlainDisks}
  {disk : PlainDisk}

theorem ask_managed_of_ok (h : PlainDisk.ask request sector d.managed = .ok reply disk) :
    ask request .managed sector d = .ok reply ⟨disk, d.foreign⟩ := by
  simp only [ask, h]

theorem ask_foreign_of_ok (h : PlainDisk.ask request sector d.foreign = .ok reply disk) :
    ask request .foreign sector d = .ok reply ⟨d.managed, disk⟩ := by
  simp only [ask, h]

end PlainDisks

/-- The bytes on both disks. -/
def Disks.plain (d : Disks) : PlainDisks := ⟨d.managed.device.bytes, d.foreign.device.bytes⟩

theorem Disks.size_plain (d : Disks) : d.plain.size = d.size := by
  funext target
  cases target <;> exact RamDisk.length_bytes _

namespace Bench

variable {α : Type} {s : UInt32} {a : Access α} {r : α} {b : Bench}

theorem perform_managed_of_ok {c : Cached RamDisk} (h : Cached.perform s a b.store = .ok r c) :
    perform .managed s a b = .ok r ⟨c, b.foreign⟩ := by
  simp only [perform, onStore, h]

theorem perform_foreign_of_ok {disk : Metered RamDisk}
    (h : Metered.perform s.toNat a b.foreign = .ok r disk) :
    perform .foreign s a b = .ok r ⟨b.store, disk⟩ := by
  simp only [perform, onForeign, h]

end Bench

/-- A call of the cache: a request for a sector of one of the disks, or a flush. -/
inductive CacheCall : Type 1
  | ask {α : Type} (target : Target) (sector : UInt32) (request : Request α)
  | flush

namespace CacheCall

def Reply : CacheCall → Type
  | @ask α _ _ _ => α
  | flush => Unit

/-- A call with the cache in front of the managed disk. -/
def onBench : (call : CacheCall) → EStateM Fault Bench call.Reply
  | ask target sector request => CacheStep.performChecked target sector request.access
  | flush => Bench.onStore Cached.flush

/-- The call without a cache. There is nothing to flush then. -/
def onPlain : (call : CacheCall) → EStateM Fault PlainDisks call.Reply
  | ask target sector request => PlainDisks.ask request target sector.toNat
  | flush => pure ()

theorem onBench_ask {α : Type} {target : Target} {s : UInt32} {request : Request α} {a : Access α}
    (h : request.access = .ok a) (b : Bench) :
    onBench (ask target s request) b = Bench.perform target s a b := by
  rw [onBench, h]
  rfl

/-- A call in range, for an existing sector of disks with so many sectors. -/
def Valid (size : Target → Nat) : CacheCall → Prop
  | ask target sector request => request.InRange ∧ sector.toNat < size target
  | flush => True

def target? : CacheCall → Option Target
  | ask target _ _ => some target
  | flush => none

end CacheCall

end SectorVolume
