import SectorVolume.Session
import SectorVolume.Proofs.Resize.Exact
import SectorVolume.Proofs.Transfer.Writing

/-!
Transfers of a file with holes. Whatever pointers are missing, and whether or not the length fits
the blocks that are there, a range of bytes is moved up to the first position without a block: a
write stops at the end of the file besides, while a read that would go beyond it moves nothing. A
transfer changes no pointer, no use of a sector and no byte other than those that it moves.
-/

namespace SectorVolume

namespace Inode

/-- How many bytes of a range a write moves. -/
def writable (n : Inode) (offset len hole : Nat) : Nat :=
  if wordLimit ≤ offset + len then 0 else min (min (offset + len) n.length.toNat) hole - offset

/-- How many bytes of a range a read moves. -/
def readable (n : Inode) (offset len hole : Nat) : Nat :=
  if wordLimit ≤ offset + len ∨ n.length.toNat < offset + len then 0
  else min (offset + len) hole - offset

/-- The first `count` bytes of `data` are in the file from `offset` on, and nothing else is
changed. -/
structure Laid (n : Inode) (d d' : Medium) (offset count : Nat) (data : Array UInt8) : Prop where
  size : d'.size = d.size
  map : d'.map = d.map
  forest : n.forest d'.content = n.forest d.content
  nodes : ∀ s ∈ (n.forest d.content).nodes, d'.content s = d.content s
  bytes : ∀ i < count, i < data.size ∧ n.byte? d'.content (offset + i) = data[i]?
  kept : ∀ (s : UInt32) (k : Nat), (∀ i < count,
      (n.forest d.content).block? ((offset + i) / sectorSize) = some s →
        (offset + i) % sectorSize ≠ k) →
    (d'.content s)[k]? = (d.content s)[k]?

/-- What a read finds is in the file from `offset` on. -/
structure Found (n : Inode) (d : Medium) (offset count : Nat) (found : Array UInt8) : Prop where
  size : found.size = count
  bytes : ∀ i < count, (found[i]?).isSome ∧ found[i]? = n.byte? d.content (offset + i)

variable {n : Inode} {d d' : Medium} {offset hole : Nat}

theorem SameOutside.laid {stop : Nat} {data : Array UInt8} (h : n.SameOutside d d' offset stop)
    (hn : n.Sparse d) (hstop : stop ≤ offset + data.size)
    (hbytes : ∀ i, offset ≤ i → i < stop → n.byte? d'.content i = data[i - offset]?) :
    n.Laid d d' offset (stop - offset) data where
  size := h.trees.size
  map := h.trees.map
  forest := h.trees.forest_eq hn
  nodes _ hs := h.trees.content_node hn hs
  bytes i hi := by
    refine ⟨by omega, ?_⟩
    rw [hbytes _ (by omega) (by omega), Nat.add_sub_cancel_left]
  kept s k hout := by
    refine h.kept s k fun pos hpos hlt => ?_
    have hsame : offset + (pos - offset) = pos := by omega
    have hmoved := hout (pos - offset) (by omega)
    rwa [hsame] at hmoved

/-- A write of any range of a file. -/
theorem Sparse.exists_written (hn : n.Sparse d) (hhole : n.FirstHole d.content offset hole)
    (data : Array UInt8) :
    ∃ d', (n.writeAt offset data).eval d = .ok (n.writable offset data.size hole, d') ∧
      n.Laid d d' offset (n.writable offset data.size hole) data ∧
      n.Sparse d' ∧ n.FirstHole d'.content offset hole := by
  unfold writable
  by_cases hlimit : wordLimit ≤ offset + data.size
  · refine ⟨d, ?_, ?_, hn, hhole⟩
    · unfold writeAt
      rw [if_pos hlimit, if_pos hlimit]
      rfl
    · rw [if_pos hlimit]
      exact ⟨rfl, rfl, rfl, fun _ _ => rfl, fun i hi => absurd hi (Nat.not_lt_zero i),
        fun _ _ _ => rfl⟩
  · rw [if_neg hlimit]
    have hinside : offset + data.size < wordLimit := Nat.lt_of_not_le hlimit
    obtain ⟨d', heval, hsame, hbytes⟩ := hn.eval_writeAt hinside hhole
    exact ⟨d', heval, hsame.laid hn (by omega) hbytes, hsame.trees.sparse hn,
      hsame.trees.firstHole hn hhole⟩

/-- A read of any range of a file. -/
theorem Sparse.exists_found (hn : n.Sparse d) (hhole : n.FirstHole d.content offset hole)
    (len : Nat) :
    ∃ found, (n.readAt offset len).eval d = .ok (found, d) ∧
      n.Found d offset (n.readable offset len hole) found := by
  unfold readable
  by_cases hout : wordLimit ≤ offset + len ∨ n.length.toNat < offset + len
  · rw [if_pos hout]
    exact ⟨#[], eval_readAt_of_lt hout, rfl, fun i hi => absurd hi (Nat.not_lt_zero i)⟩
  · rw [if_neg hout]
    have hin : offset + len ≤ n.length.toNat := by omega
    obtain ⟨found, heval, hsize, hbytes⟩ := hn.eval_readAt hin hhole
    refine ⟨found, heval, hsize, fun i hi => ⟨?_, hbytes i (by omega)⟩⟩
    rw [Array.getElem?_eq_getElem (by omega)]
    rfl

/-- What was written is found again. -/
theorem Found.eq_extract {count : Nat} {data found : Array UInt8}
    (h : n.Found d' offset count found)
    (hlaid : n.Laid d d' offset count data) : found = data.extract 0 count := by
  apply Array.ext_getElem?
  intro i
  rw [Array.getElem?_extract, Nat.zero_add, Nat.sub_zero]
  by_cases hi : i < count
  · obtain ⟨hlt, hbyte⟩ := hlaid.bytes i hi
    rw [(h.bytes i hi).2, hbyte, if_pos (by omega)]
  · rw [Array.getElem?_eq_none (by rw [h.size]; omega), if_neg (by omega)]

theorem readable_le (n : Inode) (offset len hole : Nat) : n.readable offset len hole ≤ len := by
  unfold readable
  split <;> omega

/-- Inside the file as much is read as is written. -/
theorem readable_eq_writable {len : Nat} (hin : offset + len ≤ n.length.toNat) :
    n.readable offset len hole = n.writable offset len hole := by
  have hlength := n.length.toNat_lt
  have hword : ¬wordLimit ≤ offset + len := by
    simp only [wordLimit]
    omega
  unfold readable writable
  rw [if_neg (by omega), if_neg hword, Nat.min_eq_left hin]

/-- The buffer after a read: what was found, and behind it what was there. -/
theorem Found.exists_filled {count : Nat} {found buffer : Array UInt8}
    (h : n.Found d offset count found) (hcount : count ≤ buffer.size) :
    ∃ filled, Session.overBuffer found buffer = .buffer count filled ∧
      filled.size = buffer.size ∧
      ∀ i, filled[i]? = if i < count then n.byte? d.content (offset + i) else buffer[i]? := by
  have hsize := h.size
  refine ⟨found ++ buffer.extract found.size buffer.size, ?_, ?_, fun i => ?_⟩
  · unfold Session.overBuffer
    rw [hsize]
  · rw [Array.size_append, Array.size_extract]
    omega
  · by_cases hi : i < count
    · rw [if_pos hi, Array.getElem?_append_left (by omega), (h.bytes i hi).2]
    · rw [if_neg hi, Array.getElem?_append_right (by omega), Array.getElem?_extract]
      by_cases hin : i < buffer.size
      · rw [if_pos (by omega)]
        congr 1
        omega
      · rw [if_neg (by omega), Array.getElem?_eq_none (by omega)]

/-- Whatever blocks a file has and whatever its length, a write from `offset` on stores the first
bytes of its data and a read fills the first bytes of its buffer, as many as there are up to the
first hole; a write ends with the file, and a read that would go beyond it finds nothing, as does
either one beyond what 64 bits can number. The pointers, the free map and all other bytes of all
sectors stay as they are, and what is written inside the file is read again. -/
theorem transfers_stop_at_holes {e : Engine RamDisk} (hcoherent : e.store.Coherent)
    (hn : n.Sparse e.medium) (offset : Nat) (data buffer : Array UInt8) :
    ∃ hole, n.FirstHole e.medium.content offset hole ∧
      (∃ e', Engine.run (n.writeAt offset data) e = .ok (n.writable offset data.size hole) e' ∧
        e'.store.Coherent ∧
        n.Laid e.medium e'.medium offset (n.writable offset data.size hole) data ∧
        (offset + data.size ≤ n.length.toNat →
          ∃ e'', Engine.run (n.readAt offset data.size) e' =
              .ok (data.extract 0 (n.writable offset data.size hole)) e'' ∧
            e''.store.Coherent ∧ e''.medium = e'.medium)) ∧
      ∃ found e' filled, Engine.run (n.readAt offset buffer.size) e = .ok found e' ∧
        e'.store.Coherent ∧ e'.medium = e.medium ∧
        Session.overBuffer found buffer = .buffer (n.readable offset buffer.size hole) filled ∧
        filled.size = buffer.size ∧
        ∀ i, filled[i]? = if i < n.readable offset buffer.size hole
          then n.byte? e.medium.content (offset + i) else buffer[i]? := by
  obtain ⟨hole, hhole⟩ := FirstHole.exists_of n e.medium.content offset
  refine ⟨hole, hhole, ?_, ?_⟩
  · obtain ⟨d', heval, hlaid, hn', hhole'⟩ := hn.exists_written hhole data
    obtain ⟨e', hrun, hcoherent', rfl⟩ := Engine.run_of_eval_ok hcoherent heval
    refine ⟨e', hrun, hcoherent', hlaid, fun hin => ?_⟩
    obtain ⟨found, hread, hfound⟩ := hn'.exists_found hhole' data.size
    rw [readable_eq_writable hin] at hfound
    rw [hfound.eq_extract hlaid] at hread
    exact Engine.run_of_eval_ok hcoherent' hread
  · obtain ⟨found, heval, hfound⟩ := hn.exists_found hhole buffer.size
    obtain ⟨e', hrun, hcoherent', hmedium⟩ := Engine.run_of_eval_ok hcoherent heval
    obtain ⟨filled, hfilled⟩ := hfound.exists_filled (n.readable_le offset buffer.size hole)
    exact ⟨found, e', filled, hrun, hcoherent', hmedium, hfilled⟩

/-- Three blocks long, and the second one is missing. -/
def gapped : Inode where
  length := 1536
  isDirWord := 0
  children := 0
  magic := magicNumber
  direct := #v[2, 0, 3, 0, 0, 0, 0, 0, 0, 0, 0, 0]
  single := 0
  double := 0
  unused := Vector.replicate 110 0

theorem sparse_gapped : gapped.Sparse Engine.small.medium := by
  have hblocks : gapped.blocks Engine.small.medium.content = [2, 3] := rfl
  have hsize : Engine.small.medium.size = 8 := Engine.size_small
  refine ⟨by decide, ?_, ?_⟩
  · simp [hblocks, hsize]
  · simp [hblocks]

theorem FirstHole.eq_of_gapped {c : UInt32 → Sector} (h : gapped.FirstHole c 500 hole) :
    hole = 512 := by
  have hfirst : (gapped.forest c).block? (500 / sectorSize) = some 2 := rfl
  have hsecond : (gapped.forest c).block? (512 / sectorSize) = none := rfl
  have hle : 512 ≤ hole := h.block_le hfirst
  exact (h.from_mid (by decide) hle).eq_start hsecond

/-- A hundred bytes over the end of the first block: twelve of them are written, and read
again. -/
theorem write_ends_at_the_gap :
    ∃ e' e'', Engine.run (gapped.writeAt 500 (Array.replicate 100 7)) Engine.small = .ok 12 e' ∧
      Engine.run (gapped.readAt 500 100) e' = .ok (Array.replicate 12 7) e'' ∧
      (e'.medium.content 2)[511]? = some 7 ∧
      (e'.medium.content 2)[499]? = (Engine.small.medium.content 2)[499]? := by
  obtain ⟨hole, hhole, ⟨e', hwrite, -, hlaid, hagain⟩, -⟩ :=
    transfers_stop_at_holes Engine.coherent_small sparse_gapped 500 (Array.replicate 100 7) #[]
  obtain rfl := hhole.eq_of_gapped
  have hcount : gapped.writable 500 (Array.replicate 100 (7 : UInt8)).size 512 = 12 := by decide
  rw [hcount] at hwrite hlaid hagain
  obtain ⟨e'', hread, -, -⟩ := hagain (by decide)
  refine ⟨e', e'', hwrite, hread, ?_, ?_⟩
  · exact (hlaid.bytes 11 (by decide)).2
  · refine hlaid.kept 2 499 fun i hi _ hmod => ?_
    simp only [sectorSize] at hmod
    omega

end Inode

end SectorVolume
