import SectorVolume.Proofs.Registry.Counts
import SectorVolume.Proofs.Volume.Contents
import SectorVolume.Proofs.Volume.Lifetimes

/-!
A medium that is filled from the front. The files take the first sectors without a gap; all others
are free and zero, and requests get them in ascending order. A new file takes the next sectors,
the first of them for its inode.
-/

namespace SectorVolume

/-- The sectors that a file takes, with the one for its inode. -/
def sectorsFor (length : Nat) : Nat := 1 + totalBlocks length

/-- Why a file of a length cannot be made while so many sectors are free. One is taken for the
inode before the length is looked at. -/
def refusal? (free length : Nat) : Option Refusal :=
  if free = 0 then some .noSpace
  else if maxLength < length then some .tooLarge
  else if free < sectorsFor length then some .noSpace
  else none

theorem refusal?_eq_none_iff {free length : Nat} :
    refusal? free length = none ↔ length ≤ maxLength ∧ sectorsFor length ≤ free := by
  have hpos : 1 ≤ sectorsFor length := Nat.le_add_right 1 _
  rw [refusal?]
  repeat' split
  all_goals simp only [reduceCtorEq, false_iff, true_iff]; omega

theorem File.blocks_empty (isDir : Bool) : (empty isDir).blocks = 0 :=
  show totalBlocks 0 = 0 by decide

/-- The file has just these bytes. -/
structure File.Has (f : File) (data : Array UInt8) : Prop where
  length_eq : f.length = data.size
  read_eq : f.read 0 data.size = data

theorem File.has_of_bytes {f : File} {data : Array UInt8} (hlength : f.length = data.size)
    (hsize : data.size ≤ f.bytes.size) (hbytes : ∀ i < data.size, f.bytes[i]? = data[i]?) :
    f.Has data := by
  refine ⟨hlength, ?_⟩
  rw [read, if_pos (by omega), Nat.zero_add]
  apply Array.ext_getElem?
  intro i
  rw [Array.getElem?_extract]
  by_cases hi : i < data.size
  · rw [if_pos (by omega), Nat.zero_add, hbytes i hi]
  · rw [if_neg (by omega), Array.getElem?_eq_none (Nat.le_of_not_lt hi)]

/-- A file is opened, written and closed again by the only one who has it open. -/
theorem gives_written {d d' : Medium} {x : UInt32} {n : Inode} {offset written : Nat}
    {data : Array UInt8} (hn : d.HasInode x n)
    (hwrite : ∀ g : Registry, (g.entry x).denials = 0 →
      VolumeM.Gives (Handle.writeAt ⟨x, false⟩ offset data) g d written g d') :
    ∃ g, VolumeM.Gives (do
      let k ← Volume.open x
      let written ← k.writeAt offset data
      k.close
      return written) Table.empty d written g d' := by
  obtain ⟨g, hopen, hcounts⟩ := gives_open (x := x) hn (Registry.Counts.empty fun _ => false)
    fun _ => rfl
  obtain ⟨g', hclose, _⟩ := gives_close_of_last hcounts rfl (show d' = d' from rfl)
  have hdenials : (g.entry x).denials = 0 := (hcounts.denials_entry x).trans (by simp [denials])
  exact ⟨g', hopen.bind ((hwrite g hdenials).bind (hclose.bind (VolumeM.gives_pure _ _ _)))⟩

/-- The first sectors, up to `next`, are in use; all others are free and zero. -/
structure Medium.Filled (d : Medium) (sectors next : Nat)
    (files : UInt32 → Option File) : Prop where
  size : d.size = sectors
  numbered : sectors ≤ UInt32.size
  holds : d.Holds 1 files
  supply : d.map.supply = (List.range' next (sectors - next)).map UInt32.ofNat
  zero : ∀ s : UInt32, next ≤ s.toNat → d.content s = Sector.zero

namespace Medium.Filled

variable {d d' : Medium} {sectors next length : Nat} {files : UInt32 → Option File} {x : UInt32}
  {n : Inode} {f : File}

theorem available (h : d.Filled sectors next files) : d.map.space.available = sectors - next := by
  rw [← FreeMap.length_supply, h.supply, List.length_map, List.length_range']

/-- Sectors that are handed out are the next ones. -/
theorem taken_eq (h : d.Filled sectors next files) {taken rest : List UInt32}
    (hsupply : d.map.supply = taken ++ rest) :
    (∀ s ∈ taken, s.toNat < next + taken.length) ∧
      rest = (List.range' (next + taken.length) (sectors - (next + taken.length))).map
        UInt32.ofNat := by
  have hlength := congrArg List.length (h.supply.symm.trans hsupply)
  rw [List.length_map, List.length_range', List.length_append] at hlength
  have hsplit : List.range' next (sectors - next) = List.range' next taken.length ++
      List.range' (next + taken.length) (sectors - (next + taken.length)) := by
    rw [List.range'_append_1]
    congr 1
    omega
  rw [h.supply, hsplit, List.map_append] at hsupply
  obtain ⟨htaken, hrest⟩ := List.append_inj hsupply (by rw [List.length_map, List.length_range'])
  refine ⟨fun s hs => ?_, hrest.symm⟩
  rw [← htaken] at hs
  obtain ⟨i, hi, rfl⟩ := List.mem_map.1 hs
  rw [List.mem_range'_1] at hi
  exact Nat.lt_of_le_of_lt (Nat.mod_le i _) hi.2

/-- What a file has lies in the first sectors. -/
theorem owned_lt (h : d.Filled sectors next files) (hx : (files x).isSome) {s : UInt32}
    (hs : s ∈ d.owned x) : s.toNat < next := by
  obtain ⟨f, hf⟩ := Option.isSome_iff_exists.1 hx
  obtain ⟨n, hn⟩ := h.holds.stores x f hf
  have hexists := hn.exists_owned hs
  have hused := FreeMap.notMem_supply h.holds.within (h.holds.used_owned hx hs)
  rw [h.size] at hexists
  by_contra hge
  apply hused
  rw [h.supply, List.mem_map]
  exact ⟨s.toNat, List.mem_range'_1.2 (by omega), UInt32.ofNat_toNat⟩

/-- An empty file is made in the next sector. -/
theorem make (h : d.Filled sectors next files) (hlt : next < sectors) (hx : x = UInt32.ofNat next)
    (hd' : d' = ({ d with map := d.map.grant x } : Medium).put x (Inode.blank false).toSector) :
    d.map.supply = x :: (List.range' (next + 1) (sectors - (next + 1))).map UInt32.ofNat ∧
      files x = none ∧ x.toNat < d.size ∧
      d'.Filled sectors (next + 1) (Function.update files x (some (File.empty false))) ∧
      d'.Stores x (Inode.blank false) (File.empty false) := by
  have hnumbered := h.numbered
  have hnumber : x.toNat = next := by
    rw [hx]
    exact UInt32.toNat_ofNat_of_lt' (by omega)
  have hsupply : d.map.supply =
      x :: (List.range' (next + 1) (sectors - (next + 1))).map UInt32.ofNat := by
    have hcount : sectors - next = sectors - (next + 1) + 1 := by omega
    rw [h.supply, hcount, List.range'_succ, List.map_cons, hx]
  have hfree := FreeMap.mem_supply h.holds.within (s := x) (by simp [hsupply])
  obtain ⟨hexists, hholds, hstores, _⟩ := h.holds.make hsupply false hd'
  refine ⟨hsupply, h.holds.none_of_free hfree, hexists, ⟨?_, hnumbered, hholds, ?_, ?_⟩, hstores⟩
  · rw [hd']
    exact h.size
  · rw [hd']
    exact FreeMap.supply_grant hsupply h.holds.within
  · intro s hs
    rw [hd', content_put_of_ne]
    · exact h.zero s (by omega)
    · rintro rfl
      omega

/-- The file grows into the next sectors. -/
theorem grow (h : d.Filled sectors next files) (hfile : files x = some (File.empty false))
    (hn : d.Stores x (Inode.blank false) (File.empty false)) (hle : length ≤ maxLength)
    (hfit : totalBlocks length ≤ sectors - next) :
    ∃ m d', ((Inode.blank false).resize x length).eval d = .ok (.ok m, d') ∧
      d'.Filled sectors (next + totalBlocks length)
        (Function.update files x (some ((File.empty false).resize length))) := by
  obtain ⟨m, d', taken, rest, heval, hholds, hsupply, htaken, hresized⟩ :=
    h.holds.exists_resized hfile hn hle (by rw [File.blocks_empty, h.available]; exact hfit)
  rw [File.blocks_empty, Nat.sub_zero] at htaken
  obtain ⟨hbefore, hrest⟩ := h.taken_eq hsupply
  rw [htaken] at hbefore hrest
  have hbeyond : ((Inode.blank false).forest d.content).beyond (dataBlocks length) = [] :=
    Forest.beyond_of_fits (Inode.fits_blank false d.content) (Nat.zero_le _)
  have hmap := hresized.map
  rw [hbeyond, FreeMap.takeBackAll_nil] at hmap
  refine ⟨m, d', heval, hresized.size.trans h.size, h.numbered, hholds, ?_, fun s hs => ?_⟩
  · rw [hmap, ← hrest]
    exact FreeMap.supply_grantAll h.holds.within hsupply
  · rw [hresized.kept s]
    · exact h.zero s (by omega)
    · rintro rfl
      have hself := h.owned_lt (by rw [hfile]; rfl) (hn.owned_eq ▸ List.mem_cons_self)
      omega
    · intro hnode
      have hmem : s ∈ (Inode.blank false).blocks d.content := Forest.mem_sectors.2 (Or.inl hnode)
      rw [Inode.blocks_blank] at hmem
      exact absurd hmem List.not_mem_nil
    · intro hmem
      have := hbefore s hmem
      omega

/-- What comes of making a file in the next sector depends on its length alone. -/
theorem create (h : d.Filled sectors next files) (hlt : next < sectors)
    (hx : x = UInt32.ofNat next)
    (length : Nat) :
    files x = none ∧ allocSector.eval d = .ok (some x, { d with map := d.map.grant x }) ∧
      ∃ r d', (Volume.create x length false).eval { d with map := d.map.grant x } = .ok (r, d') ∧
        (∀ refusal, refusal? (sectors - next) length = some refusal → r = .error refusal) ∧
        (refusal? (sectors - next) length = none → r = .ok () ∧
          d'.Filled sectors (next + sectorsFor length)
            (Function.update files x (some ((File.empty false).resize length)))) := by
  obtain ⟨hsupply, hnone, hexists, hmade, hn⟩ := h.make hlt hx rfl
  refine ⟨hnone, Script.eval_allocSector_of_cons h.holds.within hsupply, ?_⟩
  have hfile : Function.update files x (some (File.empty false)) x = some (File.empty false) :=
    Function.update_self ..
  rw [refusal?, if_neg (by omega)]
  by_cases hlength : maxLength < length
  · rw [if_pos hlength]
    refine ⟨_, _, Volume.eval_create hexists (Inode.eval_resize_of_tooLarge hlength), ?_, ?_⟩
    · rintro _ ⟨⟩
      rfl
    · exact fun hok => absurd hok (by simp)
  · have hle := Nat.le_of_not_lt hlength
    rw [if_neg hlength]
    by_cases hfew : sectors - next < sectorsFor length
    · obtain ⟨d', heval, _⟩ := hmade.holds.resize_of_few hn hle (by
        rw [hmade.available, File.blocks_empty]
        rw [sectorsFor] at hfew
        omega)
      rw [if_pos hfew]
      refine ⟨_, d', Volume.eval_create hexists heval, ?_, fun hok => absurd hok (by simp)⟩
      rintro _ ⟨⟩
      rfl
    · obtain ⟨m, d', heval, hfilled⟩ := hmade.grow hfile hn hle (by
        rw [sectorsFor] at hfew
        omega)
      rw [if_neg hfew]
      refine ⟨_, d', Volume.eval_create hexists heval, fun _ hr => absurd hr (by simp),
        fun _ => ?_⟩
      rw [Function.update_idem, Nat.add_assoc] at hfilled
      exact ⟨rfl, hfilled⟩

/-- Bytes are written into a file. -/
theorem write (h : d.Filled sectors next files) (hf : files x = some f) (hn : d.Stores x n f)
    {data : Array UInt8} (hin : data.size ≤ f.length) :
    ∃ d', (n.writeAt 0 data).eval d = .ok (data.size, d') ∧
      d'.Filled sectors next (Function.update files x (some (f.overlay 0 data))) := by
  obtain ⟨d', heval, hholds, hsize, hmap, hkept⟩ :=
    h.holds.write hf hn (show 0 + data.size ≤ f.length by omega)
  refine ⟨d', heval, hsize.trans h.size, h.numbered, hholds, ?_, fun s hs => ?_⟩
  · rw [hmap]
    exact h.supply
  · rw [hkept s fun hmem => ?_]
    · exact h.zero s hs
    · have := h.owned_lt (by rw [hf]; rfl) hmem
      omega

/-- A file that has the right length gets its bytes through a handle that is closed again. -/
theorem copy (h : d.Filled sectors next files) {data : Array UInt8}
    (hf : files x = some ((File.empty false).resize data.size)) :
    ∃ g d' f, VolumeM.Gives (do
        let k ← Volume.open x
        let written ← k.writeAt 0 data
        k.close
        return written) Table.empty d data.size g d' ∧
      f.Has data ∧ d'.Filled sectors next (Function.update files x (some f)) := by
  obtain ⟨n, hn⟩ := h.holds.stores x _ hf
  have hsize := hn.length_le_size
  by_cases hempty : data.isEmpty = true
  · have hzero : data.size = 0 := by simpa using hempty
    have hwrite : ∀ g : Registry, (g.entry x).denials = 0 →
        VolumeM.Gives (Handle.writeAt ⟨x, false⟩ 0 data) g d data.size g d := by
      intro g _
      rw [hzero]
      exact Handle.gives_writeAt_of_idle (Or.inl hempty)
    obtain ⟨g, hgives⟩ := gives_written hn.hasInode hwrite
    refine ⟨g, d, _, hgives, File.has_of_bytes rfl hsize fun i hi => by omega, ?_⟩
    rw [← hf, Function.update_eq_self]
    exact h
  · obtain ⟨d', heval, hfilled⟩ := h.write hf hn (Nat.le_refl data.size)
    have hlength : 0 + data.size ≤ n.length.toNat := by
      rw [hn.length_eq, Nat.zero_add]
      exact Nat.le_refl _
    have hlimit : 0 + data.size < wordLimit := by
      have := n.length.toNat_lt
      simp only [wordLimit]
      omega
    obtain ⟨g, hgives⟩ := gives_written hn.hasInode fun g hdenials =>
      Handle.gives_writeAt_of_grown (h := ⟨x, false⟩) (by simpa using hempty) hdenials hlimit
        (Handle.eval_grown_of_le hn.hasInode hlength) heval
    refine ⟨g, d', _, hgives, File.has_of_bytes rfl ?_ fun i hi => ?_, hfilled⟩
    · rw [File.overlay, Array.size_ofFn]
      exact hsize
    · rw [File.getElem?_overlay _ _ _ (Nat.lt_of_lt_of_le hi hsize), if_pos (by omega),
        Nat.sub_zero]

end Medium.Filled

end SectorVolume
