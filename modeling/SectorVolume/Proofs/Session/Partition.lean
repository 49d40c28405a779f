import SectorVolume.Proofs.Index.Pointers
import SectorVolume.Proofs.Session.Answers

/-!
Whose the sectors of a volume are. Every sector in use is one of the first, which are set aside,
or holds the inode of one live file, or a block of one such file; a file has the blocks that its
length needs and no others. Every run keeps this, whatever is refused on the way.
-/

namespace SectorVolume

namespace Session

section Sectors

variable (s : Session) (x : UInt32)

/-- The inode that is stored in a sector. -/
def inodeAt : Inode := Inode.ofSector (s.engine.store.content x)

/-- The data blocks and index blocks of the file with its inode in a sector. -/
def treeOf : List UInt32 := (s.inodeAt x).blocks s.engine.store.content

end Sectors

/-- The sectors in use are shared out between the first `reserved` ones and the live files, and
each file has as many as it needs. -/
structure Partition (reserved : Nat) (live : UInt32 → Prop) (s : Session) : Prop where
  valid : ∀ x, live x → (s.inodeAt x).isValid = true
  /-- The listing of a file's sectors is the file's tree. -/
  listed : ∀ x, live x → s.engine.answer (s.inodeAt x).sectors = .ok (s.treeOf x)
  nodup : ∀ x, live x → (x :: s.treeOf x).Nodup
  zero_notMem : ∀ x, live x → 0 ∉ s.treeOf x
  apart : ∀ x y, live x → live y → x ≠ y → (x :: s.treeOf x).Disjoint (y :: s.treeOf y)
  beyond_reserved : ∀ x, live x → ∀ t ∈ x :: s.treeOf x, reserved ≤ t.toNat
  used_iff : ∀ i, i < s.engine.map.bitmap.capacity →
    (s.engine.map.bitmap.used? i = some true ↔
      i < reserved ∨ ∃ x, live x ∧ ∃ t ∈ x :: s.treeOf x, t.toNat = i)
  below_capacity : ∀ x, live x → ∀ t ∈ x :: s.treeOf x, t.toNat < s.engine.map.bitmap.capacity
  points : ∀ x, live x →
    (s.inodeAt x).Points s.engine.store.content (dataBlocks (s.inodeAt x).length.toNat)

/-- The live files of a reference share out the sectors of the session that shows it. -/
theorem Shows.partition {reserved : Nat} {extra : List Handle} {s : Session} {r : Reference}
    (hs : s.Shows reserved extra r) : s.Partition reserved fun x => (r.files.get? x).isSome := by
  have hstores :
      ∀ x, (r.files.get? x).isSome → ∃ f, s.engine.medium.Stores x (s.inodeAt x) f := by
    intro x hx
    obtain ⟨f, hf⟩ := Option.isSome_iff_exists.1 hx
    obtain ⟨n, hn⟩ := hs.holds.stores x f hf
    have hinode : s.inodeAt x = n := hn.hasInode.ofSector_eq
    exact ⟨f, by rw [hinode]; exact hn⟩
  refine {
    valid := ?_
    listed := ?_
    nodup := ?_
    zero_notMem := ?_
    apart := ?_
    beyond_reserved := ?_
    used_iff := ?_
    below_capacity := ?_
    points := ?_
  }
  · intro x hx
    obtain ⟨f, hn⟩ := hstores x hx
    exact hn.hasInode.valid
  · intro x hx
    obtain ⟨f, hn⟩ := hstores x hx
    exact hn.placed.answer_sectors hs.coherent
  · intro x hx
    obtain ⟨f, hn⟩ := hstores x hx
    exact List.nodup_cons.2 ⟨hn.placed.self_notMem, hn.placed.ready.nodup⟩
  · exact fun x _ => zero_notMem_forest _ _
  · exact fun x y hx hy hne t htx hty => hs.holds.apart x y hx hy hne t htx hty
  · exact fun x hx t ht => (hs.holds.beyond_reserved x hx t ht).1
  · intro i hi
    have hsize : i < UInt32.size := Nat.lt_of_lt_of_le hi hs.holds.numbered
    have hnumber : (UInt32.ofNat i).toNat = i := UInt32.toNat_ofNat_of_lt' hsize
    have hused := hs.holds.used_iff (UInt32.ofNat i) (by rw [hnumber]; exact hi)
    rw [hnumber] at hused
    refine hused.trans (or_congr Iff.rfl (exists_congr fun x => and_congr_right fun _ => ?_))
    constructor
    · exact fun hmem => ⟨_, hmem, hnumber⟩
    · rintro ⟨t, ht, rfl⟩
      rw [UInt32.ofNat_toNat]
      exact ht
  · exact fun x hx t ht => (hs.holds.beyond_reserved x hx t ht).2
  · intro x hx
    obtain ⟨f, hn⟩ := hstores x hx
    rw [hn.length_eq]
    exact Inode.points_of_fits hn.fits

/-- After every run of steps on files that is no fault. The files that are live are those that
were made and not reclaimed. -/
theorem play_keeps_partition {disk : RamDisk} {mapped reserved capacity : Nat}
    (hreserved : 0 < reserved) (hfit : reserved ≤ mapped) (hmapped : mapped ≤ disk.sectors.size)
    (hsectors : disk.sectors.size ≤ UInt32.size) (hcapacity : 0 < capacity) (others : Nat) :
    ∃ s₀, startOn disk mapped reserved capacity others = .ok s₀ ∧
      ∀ steps s, Reference.admitsAll steps (Reference.start (mapped - reserved)
          ((play steps s₀).answers.flatMap made)) = true →
        (play steps s₀).final = .ok s →
        ∃ answers r,
          Reference.play steps (Reference.start (mapped - reserved)
            ((play steps s₀).answers.flatMap made)) = some (answers, .ok r) ∧
          s.Partition reserved fun x => (r.files.get? x).isSome := by
  obtain ⟨s₀, hstart, hshows⟩ := exists_start hreserved hfit hmapped hsectors hcapacity others
  refine ⟨s₀, hstart, fun steps s hadmits hlast => ?_⟩
  obtain ⟨answers, final, hplay, _, hends⟩ := follows_play steps (hshows _) rfl hadmits
  rw [hlast] at hends
  cases final with
  | error f => exact False.elim hends
  | ok r => exact ⟨answers, r, hplay, Shows.partition hends⟩

/-- The short run leaves one file. -/
theorem play_shortRun_keeps_partition :
    ∃ s₀ s answers r, startOn usedDisk 8 1 1 0 = .ok s₀ ∧ (play shortRun s₀).final = .ok s ∧
      Reference.play shortRun (Reference.start 7 ((play shortRun s₀).answers.flatMap made)) =
        some (answers, .ok r) ∧
      (r.files.get? 1).isSome = true ∧ s.Partition 1 fun x => (r.files.get? x).isSome := by
  have hsize : usedDisk.sectors.size = 8 := Array.size_replicate
  obtain ⟨s₀, hstart, hplay⟩ := play_keeps_partition (by decide : 0 < 1) (by decide : 1 ≤ 8)
    (Nat.le_of_eq hsize.symm) (by rw [hsize]; decide) (by decide : 0 < 1) 0
  have hends : (startOn usedDisk 8 1 1 0).toOption.map (fun s => (play shortRun s).final.isOk) =
      some true := by
    decide +kernel
  rw [hstart] at hends
  obtain ⟨s, hlast⟩ : ∃ s, (play shortRun s₀).final = .ok s := by
    cases hfinal : (play shortRun s₀).final with
    | error f =>
      rw [Except.toOption, Option.map_some, hfinal] at hends
      exact absurd (Option.some.inj hends) (by simp [Except.isOk, Except.toBool])
    | ok s => exact ⟨s, rfl⟩
  have hlive : (Reference.play shortRun (Reference.start 7 [1])).map (fun t =>
      t.2.toOption.map fun r => (r.files.get? 1).isSome) = some (some true) := by
    decide +kernel
  obtain ⟨answers, r, hreference, hpartition⟩ := hplay shortRun s
    (by rw [made_shortRun hstart]; exact admitsAll_shortRun) hlast
  refine ⟨s₀, s, answers, r, hstart, hlast, hreference, ?_, hpartition⟩
  rw [← made_shortRun hstart, hreference] at hlive
  exact Option.some.inj (Option.some.inj hlive)

end Session

end SectorVolume
