import SectorVolume.Answer
import SectorVolume.Cached

/-!
Steps on a cached disk with a second disk beside it. A request that names the second disk goes
straight to it and leaves the cache alone.
-/

namespace SectorVolume

inductive Target
  | managed
  | foreign
  deriving DecidableEq, Repr

/-- A cached disk and a disk of which the cache knows nothing. -/
structure Bench where
  store : Cached RamDisk
  foreign : Metered RamDisk

namespace Bench

def onStore {α : Type} (m : EStateM Fault (Cached RamDisk) α) : EStateM Fault Bench α :=
  fun ⟨store, foreign⟩ =>
    match m store with
    | .ok a store => .ok a ⟨store, foreign⟩
    | .error f store => .error f ⟨store, foreign⟩

def onForeign {α : Type} (m : EStateM Fault (Metered RamDisk) α) : EStateM Fault Bench α :=
  fun ⟨store, foreign⟩ =>
    match m foreign with
    | .ok a foreign => .ok a ⟨store, foreign⟩
    | .error f foreign => .error f ⟨store, foreign⟩

def perform {α : Type} (target : Target) (sector : UInt32) (a : Access α) :
    EStateM Fault Bench α :=
  match target with
  | .managed => onStore (Cached.perform sector a)
  | .foreign => onForeign (Metered.perform sector.toNat a)

end Bench

/-- A row of bytes or of words. -/
inductive Row
  | bytes (count : Nat)
  | words (count : Nat)
  deriving DecidableEq, Repr

namespace Row

/-- Looks at the row at `offset` as a list of numbers. -/
def view {β : Type} (row : Row) (offset : Nat) (f : List UInt32 → β) : Access β :=
  match row with
  | bytes n => Access.view offset fun v : Vector UInt8 n => f (v.toList.map UInt8.toUInt32)
  | words n => Access.view offset fun v : Vector UInt32 n => f v.toList

/-- Stores the row at `offset`; values that are not given are 0. -/
def store (row : Row) (offset : Nat) (values : List UInt32) : Access Unit :=
  match row with
  | bytes n =>
    Access.store offset (Vector.ofFn fun i : Fin n => (values[i.val]?.getD 0).toUInt8)
  | words n => Access.store offset (Vector.ofFn fun i : Fin n => values[i.val]?.getD 0)

/-- Adds a number to every value of the row, modulo their width, and returns the old values. -/
def add (row : Row) (offset : Nat) (a : UInt32) : Access (List UInt32) :=
  match row with
  | bytes n => Access.modify offset fun v : Vector UInt8 n =>
      .ok (v.toList.map UInt8.toUInt32, v.map (· + a.toUInt8))
  | words n => Access.modify offset fun v : Vector UInt32 n => .ok (v.toList, v.map (· + a))

end Row

inductive CacheStep
  | read (target : Target) (sector : UInt32) (len : Nat)
  | readAt (target : Target) (sector : UInt32) (offset len : Nat)
  | write (target : Target) (sector : UInt32) (data : Array UInt8)
  | writeAt (target : Target) (sector : UInt32) (offset : Nat) (data : Array UInt8)
  | load (target : Target) (sector : UInt32) (offset : Nat) (row : Row)
  | store (target : Target) (sector : UInt32) (offset : Nat) (row : Row) (values : List UInt32)
  | sum (target : Target) (sector : UInt32) (offset : Nat) (row : Row)
  | add (target : Target) (sector : UInt32) (offset : Nat) (row : Row) (a : UInt32)
  | flush
  | contains (sector : UInt32)
  | sectors
  | capacity
  | stats

namespace CacheStep

open Bench

def total (ws : List UInt32) : Nat := ws.foldl (fun n w => n + w.toNat) 0

/-- The checks of an access, then the access. -/
def performChecked {α : Type} (target : Target) (sector : UInt32)
    (a : Except Fault (Access α)) : EStateM Fault Bench α :=
  match a with
  | .ok a => perform target sector a
  | .error f => throw f

def run : CacheStep → EStateM Fault Bench Answer
  | read target sector len => return .bytes (← performChecked target sector (Access.read len))
  | readAt target sector offset len =>
    return .bytes (← performChecked target sector (Access.readAt offset len))
  | write target sector data => do
    performChecked target sector (Access.write data)
    return .done
  | writeAt target sector offset data => do
    performChecked target sector (Access.writeAt offset data)
    return .done
  | load target sector offset row => return .words (← perform target sector (row.view offset id))
  | store target sector offset row values => do
    perform target sector (row.store offset values)
    return .done
  | sum target sector offset row =>
    return .number (← perform target sector (row.view offset total))
  | add target sector offset row a =>
    return .number (total (← perform target sector (row.add offset a)))
  | flush => do
    onStore Cached.flush
    return .done
  | contains sector => return .flag ((← get).store.cache.contains sector)
  | sectors => return .words (← get).store.cache.sectors
  | capacity => return .number (← get).store.cache.capacity
  | stats => do
    let ⟨cache, disk⟩ := (← get).store
    return .stats cache.stats cache.sectors disk.reads disk.writes

/-- Runs steps in order and collects their answers. -/
def runAll (steps : List CacheStep) : EStateM Fault Bench (List Answer) := steps.mapM run

end CacheStep

end SectorVolume
