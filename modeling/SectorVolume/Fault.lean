/-!
What can go wrong. A refusal is an answer: the caller goes on with a volume that is as it was.
A fault is the end of a run: a caller broke a rule, or the disk holds something impossible.
-/

namespace SectorVolume

inductive Refusal
  | noSpace
  | tooLarge
  deriving DecidableEq, Repr

namespace Refusal

def message : Refusal → String
  | noSpace => "no free sector left"
  | tooLarge => "length exceeds the block index"

end Refusal

inductive Fault
  /-- A cache without slots was asked for. -/
  | noSlots
  /-- A buffer for a whole sector has another length. -/
  | partialBuffer
  /-- A range of bytes leaves its sector. -/
  | outsideSector
  /-- A value does not start at a multiple of its alignment. -/
  | misaligned
  /-- A sector to be set aside is already in use. -/
  | sectorInUse
  /-- A sector to be returned is free. -/
  | sectorFree (sector : Nat)
  /-- A sector opened as an inode lacks the mark of one. -/
  | notAnInode (sector : UInt32)
  | noChild
  | alreadyDenied
  | notDenied
  /-- More handles deny writing than there are handles. -/
  | excessDenial
  /-- Giving up sectors was refused. -/
  | shrinkRefused (refusal : Refusal)
  /-- A place in a table or on a device does not exist. -/
  | outOfBounds
  /-- A number leaves its fixed width. -/
  | overflow
  /-- Bytes were copied between places of different lengths. -/
  | lengthMismatch
  /-- An image file has no such position. -/
  | deviceSeek
  /-- An image file ends inside a transfer. -/
  | deviceTransfer
  deriving DecidableEq, Repr

namespace Fault

inductive Kind
  | assertion
  | bounds
  | overflow
  | length
  | device
  deriving DecidableEq, Repr

def kind : Fault → Kind
  | outOfBounds => .bounds
  | overflow => .overflow
  | lengthMismatch => .length
  | deviceSeek | deviceTransfer => .device
  | _ => .assertion

/-- The text of a fault, for those that carry one. -/
def text? : Fault → Option String
  | noSlots => some "buffer cache needs at least one slot"
  | partialBuffer => some "not a complete sector!"
  | sectorFree sector => some s!"release of free sector {sector}"
  | notAnInode sector => some s!"corrupted inode at sector {sector}"
  | noChild => some "no child to remove"
  | alreadyDenied => some "write already denied by this handle"
  | notDenied => some "write not denied by this handle"
  | shrinkRefused .noSpace => some "shrinking never allocates: NoSpace"
  | shrinkRefused .tooLarge => some "shrinking never allocates: TooLarge"
  | deviceSeek => some "seeking error"
  | deviceTransfer => some "not a complete sector!"
  | outsideSector | misaligned | sectorInUse | excessDenial
  | outOfBounds | overflow | lengthMismatch => none

end Fault

/-- Offsets, lengths and counts are 64 bits wide; this is the first number that is not. -/
def wordLimit : Nat := 18446744073709551616

/-- The sum of two 64-bit numbers, where it fits. -/
def checkedAdd (a b : Nat) : Except Fault Nat :=
  if a + b < wordLimit then .ok (a + b) else .error .overflow

theorem checkedAdd_eq_ok_iff {a b c : Nat} :
    checkedAdd a b = .ok c ↔ a + b < wordLimit ∧ c = a + b := by
  unfold checkedAdd
  by_cases h : a + b < wordLimit
  · rw [if_pos h, Except.ok.injEq]
    exact ⟨fun e => ⟨h, e.symm⟩, fun e => e.2.symm⟩
  · rw [if_neg h]
    exact ⟨fun e => absurd e (by simp), fun e => absurd e.1 h⟩

/-- One less, where there is something to take. -/
def checkedPred : Nat → Except Fault Nat
  | 0 => .error .overflow
  | n + 1 => .ok n

end SectorVolume
