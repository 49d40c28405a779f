import SectorVolume.Proofs.Session.Simulation
import SectorVolume.Proofs.Session.Start

/-!
What a user sees of a session. On a volume of any size, behind a cache of any size and whatever
the quotas, every run of steps on files is answered as by the reference, where files have no
sectors.
-/

namespace SectorVolume

namespace Session

/-- No sector of it is blank. -/
def usedDisk : RamDisk := ⟨Array.replicate 8 (Sector.filled 5)⟩

section UsedDisk

variable {β : Type} {s : Session} {steps : List Step} {b : β}
  (hstart : startOn usedDisk 8 1 1 0 = .ok s)

include hstart

/-- What was computed for the session on that disk. -/
theorem eq_of_usedDisk {g : Session → β}
    (heval : (startOn usedDisk 8 1 1 0).toOption.map g = some b) : g s = b := by
  rw [hstart] at heval
  exact Option.some.inj heval

/-- What was computed for the end of a run on that disk. -/
theorem exists_end_of_usedDisk {g : Session → Session → β}
    (heval : (startOn usedDisk 8 1 1 0).toOption.bind (fun s =>
      (play steps s).final.toOption.map (g s)) = some b) :
    ∃ s', (play steps s).final = .ok s' ∧ g s s' = b := by
  rw [hstart] at heval
  cases hlast : (play steps s).final with
  | error f => simp [Except.toOption, hlast] at heval
  | ok s' => exact ⟨s', rfl, by simpa [Except.toOption, hlast] using heval⟩

end UsedDisk

/-- A file is made, written and read. -/
def shortRun : List Step :=
  [.make 3 false, .open 0 1, .handle 0 (.write 1 #[7]), .handle 0 (.read 0 #[0, 0])]

/-- The file lies behind the sector that is set aside. -/
theorem made_shortRun {s : Session} (hstart : startOn usedDisk 8 1 1 0 = .ok s) :
    (play shortRun s).answers.flatMap made = [1] := by
  have heval : (startOn usedDisk 8 1 1 0).toOption.map (fun s =>
      (play shortRun s).answers.flatMap made) = some [1] := by
    decide +kernel
  exact eq_of_usedDisk hstart heval

theorem admitsAll_shortRun : Reference.admitsAll shortRun (Reference.start 7 [1]) = true := by
  decide +kernel

end Session

end SectorVolume
