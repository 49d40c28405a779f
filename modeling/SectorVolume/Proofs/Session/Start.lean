import SectorVolume.Proofs.FreeMap.Reserve
import SectorVolume.Proofs.Session.Shows

/-!
The first state of a session. With the first sectors set aside there are no files, whatever the
disk holds, and all other sectors are free.
-/

namespace SectorVolume

namespace Session

/-- A volume on a disk that was used for other things before. -/
def startOn (disk : RamDisk) (mapped reserved capacity others : Nat) : Except Fault Session := do
  let s ← start disk.sectors.size mapped reserved capacity others
  return { s with engine.store.disk := Metered.ofDevice disk }

theorem startOn_blank (sectors mapped reserved capacity others : Nat) :
    startOn (RamDisk.blank sectors) mapped reserved capacity others =
      start sectors mapped reserved capacity others := by
  have hsize : (RamDisk.blank sectors).sectors.size = sectors := Array.size_replicate
  rw [startOn, hsize, start]
  cases (FreeMap.ofBitmap (Bitmap.blank mapped)).reserve 0 reserved with
  | error f => rfl
  | ok map =>
    cases Cache.ofCapacity capacity with
    | error f => rfl
    | ok cache => rfl

/-- A session begins, and shows a volume without files. -/
theorem exists_start {disk : RamDisk} {mapped reserved capacity : Nat} (hreserved : 0 < reserved)
    (hfit : reserved ≤ mapped) (hmapped : mapped ≤ disk.sectors.size)
    (hsectors : disk.sectors.size ≤ UInt32.size) (hcapacity : 0 < capacity) (others : Nat) :
    ∃ s, startOn disk mapped reserved capacity others = .ok s ∧
      ∀ names, s.Shows reserved [] (Reference.start (mapped - reserved) names) := by
  obtain ⟨b, hmap, hcap, hfree⟩ :=
    FreeMap.exists_reserve_blank hfit (Nat.le_trans hmapped hsectors)
  have hcache : Cache.ofCapacity capacity = .ok (Cache.empty capacity hcapacity) :=
    dif_pos hcapacity
  refine ⟨{
    engine := ⟨⟨Cache.empty capacity hcapacity, Metered.ofDevice disk⟩, FreeMap.ofBitmap b⟩
    foreign := Metered.ofDevice (RamDisk.blank others)
    registry := Table.empty
    handles := Table.empty
    held := Table.empty
  }, ?_, fun names => {
    coherent := Cached.coherent_empty capacity hcapacity _
    holds := Medium.holds_nothing hreserved hmapped (Nat.le_trans hmapped hsectors) hcap hfree
    space := congrArg (Space.mk · none) (Bitmap.freeCount_eq_of_clear hfree)
    handles := rfl
    sorted := Table.sorted_empty
    counts := Registry.Counts.empty _
    live := by simp [Reference.opened, Reference.start, Table.empty]
    removed_opened := by simp [Reference.removed, Reference.start]
  }⟩
  rw [startOn, start, hmap, hcache]
  rfl

end Session

end SectorVolume
