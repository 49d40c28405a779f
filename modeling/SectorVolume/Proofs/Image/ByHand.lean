import SectorVolume.Proofs.Image.Reader
import SectorVolume.Proofs.Index.File
import SectorVolume.Proofs.Transfer.Holes

/-!
An image read by hand. The words of an inode and of its index blocks are put together from the
bytes of the file, and the pointers are followed from one place in the file to the next. Whatever
the bytes are, reading a file gives what is found this way, as long as every pointer on the way
leads into the image.
-/

namespace SectorVolume

namespace ImageFile

/-- The number that four bytes stand for, the lowest byte first. -/
def word (f : ImageFile) (pos : Nat) : Nat :=
  (f.byte pos).toNat + 256 * (f.byte (pos + 1)).toNat + 65536 * (f.byte (pos + 2)).toNat +
    16777216 * (f.byte (pos + 3)).toNat

/-- A word of a sector. -/
def pointer (f : ImageFile) (sector i : Nat) : Nat := f.word (sector * sectorSize + 4 * i)

/-- A pointer of an index block. Where there is no block the pointer is null. -/
def follow (f : ImageFile) (block i : Nat) : Nat := if block = 0 then 0 else f.pointer block i

/-- The pointers from an inode to one of its data blocks. -/
def path (f : ImageFile) (inode k : Nat) : List Nat :=
  if k < 12 then [f.pointer inode (4 + k)]
  else if k < 140 then
    let single := f.pointer inode 16
    [single, f.follow single (k - 12)]
  else
    let double := f.pointer inode 17
    let single := f.follow double ((k - 140) / 128)
    [double, single, f.follow single ((k - 140) % 128)]

/-- The sector of a data block, or 0. -/
def block (f : ImageFile) (inode k : Nat) : Nat := (f.path inode k).getLastD 0

/-- The way to a data block stays inside the index and inside the image. -/
structure InReach (f : ImageFile) (inode k : Nat) : Prop where
  index : k < maxBlocks ∨ f.pointer inode 17 = 0
  sectors : ∀ p ∈ f.path inode k, p < f.sectors

/-- So do the ways to all data blocks up to the first one that is not there. -/
def Readable (f : ImageFile) (inode : Nat) : Prop :=
  ∀ k < dataBlocks (f.pointer inode 0), (∀ j < k, f.block inode j ≠ 0) → f.InReach inode k

/-- A byte of a file: from its block, or 0 if a block is missing so far. -/
def byteOf (f : ImageFile) (inode pos : Nat) : UInt8 :=
  if ∀ k ≤ pos / sectorSize, f.block inode k ≠ 0 then
    f.byte (f.block inode (pos / sectorSize) * sectorSize + pos % sectorSize)
  else 0

section Words

variable (f : ImageFile) (s : Nat)

theorem toNat_byteWord (a b c d : UInt8) : (byteWord a b c d).toNat =
    a.toNat + 256 * b.toNat + 65536 * c.toNat + 16777216 * d.toNat := by
  have ha := a.toNat_lt
  have hb := b.toNat_lt
  have hc := c.toNat_lt
  have hd := d.toNat_lt
  simp [byteWord, UInt32.toNat_add, UInt32.toNat_mul]
  omega

theorem toNat_getElem_words {i : Nat} (hi : i < 128) :
    (@wordsOfBytes 128 (f.sectorBytes s))[i].toNat = f.pointer s i := by
  rw [getElem_wordsOfBytes, wordAt, toNat_byteWord]
  simp only [sectorBytes, Vector.getElem_ofFn, pointer, word, Nat.add_assoc]

theorem toNat_get {k : Fin 128} :
    ((IndexBlock.ofSector (f.sectorBytes s)).get k).toNat = f.pointer s k.val :=
  f.toNat_getElem_words s k.isLt

theorem pointer_zero : f.pointer s 0 = f.word (s * sectorSize) := by
  rw [pointer, Nat.mul_zero, Nat.add_zero]

theorem toNat_length : (Inode.ofSector (f.sectorBytes s)).length.toNat = f.pointer s 0 :=
  f.toNat_getElem_words s (by decide)

theorem toNat_magic : (Inode.ofSector (f.sectorBytes s)).magic.toNat = f.pointer s 3 :=
  f.toNat_getElem_words s (by decide)

theorem toNat_direct {i : Nat} (hi : i < 12) :
    (Inode.ofSector (f.sectorBytes s)).direct[i].toNat = f.pointer s (4 + i) := by
  rw [← f.toNat_getElem_words s (by omega)]
  simp [Inode.ofSector, Inode.ofWords]

theorem toNat_single : (Inode.ofSector (f.sectorBytes s)).single.toNat = f.pointer s 16 :=
  f.toNat_getElem_words s (by decide)

theorem toNat_double : (Inode.ofSector (f.sectorBytes s)).double.toNat = f.pointer s 17 :=
  f.toNat_getElem_words s (by decide)

end Words

section Lookup

variable {f : ImageFile} (map : FreeMap) {b : UInt32} {i : Nat}

/-- The lookup ends at the pointer that is found by hand. -/
def Leads (f : ImageFile) (map : FreeMap) (p : Script (Option UInt32)) (target : Nat) : Prop :=
  ∃ w : UInt32, w.toNat = target ∧
    p.eval (f.disk.medium map) = (blockUnder 0 w 0).eval (f.disk.medium map)

theorem leads_null {p : Script (Option UInt32)} (h : p = pure none) : f.Leads map p 0 :=
  ⟨0, rfl, by rw [h]; rfl⟩

theorem blockUnder_succ_of_ne (level i : Nat) (hb : b ≠ 0) : blockUnder (level + 1) b i =
    pointerAt b (i / span level) >>= fun next => blockUnder level next (i % span level) := by
  rw [blockUnder, if_neg hb]

theorem follow_of_ne {b : UInt32} (hb : b ≠ 0) : f.follow b.toNat i = f.pointer b.toNat i :=
  if_neg fun hzero => hb (UInt32.toNat_inj.1 hzero)

theorem eval_pointerAt_hand (hb : b.toNat < f.sectors) (hi : i < 128) :
    ∃ w : UInt32, w.toNat = f.pointer b.toNat i ∧
      (pointerAt b i).eval (f.disk.medium map) = .ok (w, f.disk.medium map) := by
  refine ⟨_, ?_, eval_pointerAt (lt_size_medium hb map) ⟨i, hi⟩⟩
  rw [content_medium hb, toNat_get]

theorem leads_single (hb : b.toNat < f.sectors) (hi : i < 128) :
    f.Leads map (blockUnder 1 b i) (f.follow b.toNat i) := by
  by_cases hnull : b = 0
  · subst hnull
    exact leads_null map (if_pos rfl)
  · obtain ⟨w, hw, heval⟩ := eval_pointerAt_hand map hb hi
    refine ⟨w, by rw [hw, follow_of_ne hnull], ?_⟩
    rw [blockUnder_succ_of_ne 0 i hnull, span, Nat.div_one]
    exact Script.eval_bind_of_ok heval

theorem leads_double (hb : b.toNat < f.sectors) (hi : i < 128 * 128 ∨ b = 0)
    (hsingle : f.follow b.toNat (i / 128) < f.sectors) :
    f.Leads map (blockUnder 2 b i) (f.follow (f.follow b.toNat (i / 128)) (i % 128)) := by
  by_cases hnull : b = 0
  · subst hnull
    exact leads_null map (if_pos rfl)
  · have hdiv : i / 128 < 128 := by
      have := hi.resolve_right hnull
      omega
    obtain ⟨w, hw, heval⟩ := eval_pointerAt_hand map hb hdiv
    rw [follow_of_ne hnull, ← hw] at hsingle ⊢
    obtain ⟨v, hv, hrest⟩ := leads_single map hsingle (Nat.mod_lt i (by decide))
    refine ⟨v, hv, ?_⟩
    rw [blockUnder_succ_of_ne 1 i hnull]
    exact (Script.eval_bind_of_ok heval).trans hrest

/-- The lookup of a data block goes the way that is found by hand. -/
theorem leads_block? {inode k : Nat} (h : f.InReach inode k) :
    f.Leads map ((Inode.ofSector (f.sectorBytes inode)).block? k) (f.block inode k) := by
  have hpath := h.sectors
  rw [block, path] at *
  rw [Inode.block?]
  by_cases h12 : k < 12
  · rw [dif_pos h12, if_pos h12]
    exact ⟨_, f.toNat_direct inode h12, rfl⟩
  · rw [dif_neg h12]
    rw [if_neg h12] at hpath ⊢
    by_cases h140 : k < 140
    · rw [if_pos h140] at hpath ⊢
      rw [if_pos h140]
      have hsingle := hpath _ List.mem_cons_self
      rw [← f.toNat_single inode] at hsingle ⊢
      exact leads_single map hsingle (by
        simp only [directReach]
        omega)
    · rw [if_neg h140] at hpath ⊢
      rw [if_neg h140]
      have hdouble := hpath _ List.mem_cons_self
      have hsingle := hpath _ (List.mem_cons_of_mem _ List.mem_cons_self)
      have hindex : k - 140 < 128 * 128 ∨ (Inode.ofSector (f.sectorBytes inode)).double = 0 := by
        refine h.index.imp (fun hk => ?_) fun hnull => ?_
        · simp only [maxBlocks] at hk
          omega
        · exact UInt32.toNat_inj.1 ((f.toNat_double inode).trans hnull)
      rw [← f.toNat_double inode] at hdouble hsingle ⊢
      exact leads_double map hdouble hindex hsingle

end Lookup

section Data

variable {f : ImageFile} {map : FreeMap} {s : UInt32} {k : Nat}

/-- A data block as the lookup answers it. -/
def block? (f : ImageFile) (inode k : Nat) : Option UInt32 :=
  if f.block inode k = 0 then none else some (UInt32.ofNat (f.block inode k))

theorem isSome_block?_iff {inode : Nat} :
    (f.block? inode k).isSome = true ↔ f.block inode k ≠ 0 := by
  rw [block?]
  split <;> simp_all

theorem block_mem_path (f : ImageFile) (inode k : Nat) : f.block inode k ∈ f.path inode k := by
  rw [block, path]
  split
  · simp
  · split <;> simp

/-- A block that is found by hand is a sector of the image. -/
theorem toNat_of_block?_eq_some {t : UInt32} (h : f.InReach s.toNat k)
    (ht : f.block? s.toNat k = some t) : t.toNat = f.block s.toNat k ∧ t.toNat < f.sectors := by
  obtain ⟨w, hw, -⟩ := leads_block? (FreeMap.ofBitmap (Bitmap.blank 0)) h
  rw [block?] at ht
  split at ht
  · cases ht
  · obtain rfl := Option.some.inj ht
    rw [← hw, UInt32.ofNat_toNat]
    exact ⟨rfl, hw ▸ h.sectors _ (f.block_mem_path _ _)⟩

theorem eval_sectorAt?_hand (h : f.InReach s.toNat k)
    (hk : k * sectorSize < (Inode.ofSector (f.sectorBytes s.toNat)).length.toNat) :
    ((Inode.ofSector (f.sectorBytes s.toNat)).sectorAt? (k * sectorSize)).eval
      (f.disk.medium map) =
      .ok (f.block? s.toNat k, f.disk.medium map) := by
  obtain ⟨w, hw, heval⟩ := leads_block? map h
  have hblock : f.block? s.toNat k = if w = 0 then none else some w := by
    rw [block?, ← hw, UInt32.ofNat_toNat]
    have hzero : w.toNat = 0 ↔ w = 0 := UInt32.toNat_inj (b := 0)
    simp only [hzero]
  rw [Inode.sectorAt?, if_neg (Nat.not_le.2 hk), Nat.mul_div_cancel _ (by decide), heval, hblock]
  rfl

/-- What is read of a file, with zeros behind it, is what is found by hand. -/
theorem getElem?_read (hreadable : f.Readable s.toNat) {data : Array UInt8}
    (hread : ReadUpTo (f.block? s.toNat) (f.disk.medium map).content (f.pointer s.toNat 0) data)
    {pos : Nat} (hpos : pos < f.pointer s.toNat 0) :
    (data ++ Array.replicate (f.pointer s.toNat 0 - data.size) 0)[pos]? =
      some (f.byteOf s.toNat pos) := by
  have hthere := hread.lt_size_iff hpos
  simp only [isSome_block?_iff] at hthere
  rw [byteOf]
  by_cases hlt : pos < data.size
  · have hall := hthere.1 hlt
    have hreach : f.InReach s.toNat (pos / sectorSize) := by
      refine hreadable _ ?_ fun j hj => hall j (Nat.le_of_lt hj)
      rw [lt_dataBlocks_iff]
      exact Nat.lt_of_le_of_lt (Nat.div_mul_le_self _ _) hpos
    obtain ⟨t, ht, hbyte⟩ := hread.bytes pos hlt
    obtain ⟨hblock, hsector⟩ := toNat_of_block?_eq_some hreach ht
    have hmod : pos % sectorSize < sectorSize := Nat.mod_lt _ (by decide)
    rw [if_pos hall, Array.getElem?_append_left hlt, hbyte, content_medium hsector, hblock,
      Vector.getElem?_eq_getElem hmod, sectorBytes, Vector.getElem_ofFn]
  · have hin : pos - data.size < f.pointer s.toNat 0 - data.size := by omega
    rw [if_neg (fun hall => hlt (hthere.2 hall)),
      Array.getElem?_append_right (Nat.le_of_not_lt hlt), Array.getElem?_replicate, if_pos hin]

/-- The inode is read, and then the file as far as its blocks are there. -/
theorem exists_readWhole (hs : s.toNat < f.sectors)
    (hvalid : (Inode.ofSector (f.sectorBytes s.toNat)).isValid = true)
    (hreadable : f.Readable s.toNat) :
    ∃ data, ((Image.readWhole s).run' Table.empty).eval (f.disk.medium map) =
        .ok (data, f.disk.medium map) ∧ data.size = f.pointer s.toNat 0 ∧
      ∀ pos < data.size, data[pos]? = some (f.byteOf s.toNat pos) := by
  have hinode : (f.disk.medium map).HasInode s (Inode.ofSector (f.sectorBytes s.toNat)) := by
    refine ⟨lt_size_medium hs map, ?_, hvalid⟩
    rw [content_medium hs, Inode.toSector_ofSector]
  have hlength := f.toNat_length s.toNat
  have hlookup : ∀ k, k * sectorSize < (Inode.ofSector (f.sectorBytes s.toNat)).length.toNat →
      (∀ j < k, (f.block? s.toNat j).isSome) →
      ((Inode.ofSector (f.sectorBytes s.toNat)).sectorAt? (k * sectorSize)).eval
          (f.disk.medium map) = .ok (f.block? s.toNat k, f.disk.medium map) ∧
        ∀ t, f.block? s.toNat k = some t → t.toNat < (f.disk.medium map).size := by
    intro k hk hbefore
    have hreach : f.InReach s.toNat k := by
      refine hreadable k ?_ fun j hj => isSome_block?_iff.1 (hbefore j hj)
      rw [lt_dataBlocks_iff, ← hlength]
      exact hk
    exact ⟨eval_sectorAt?_hand hreach hk, fun t ht =>
      lt_size_medium (toNat_of_block?_eq_some hreach ht).2 map⟩
  obtain ⟨data, heval, hread⟩ := Inode.exists_readAt hlookup
  have hwhole := Image.eval_readWhole hinode heval
  rw [hlength] at hread hwhole
  have hsize : (data ++ Array.replicate (f.pointer s.toNat 0 - data.size) 0).size =
      f.pointer s.toNat 0 := by
    rw [Array.size_append, Array.size_replicate]
    exact Nat.add_sub_cancel' hread.size_le
  exact ⟨_, hwhole, hsize, fun pos hpos => getElem?_read hreadable hread (hsize ▸ hpos)⟩

end Data

end ImageFile

namespace Image

variable {α : Type} {f : ImageFile} {map : FreeMap} {s : UInt32} {m : ImageM α}

/-- An engine on an image with nothing read yet. -/
def fresh (f : ImageFile) (map : FreeMap) : Engine ImageFile :=
  ⟨⟨Cache.empty _ Cache.defaultCapacity_pos, Metered.ofDevice f⟩, map⟩

theorem withEngine_of_ok {r : Except ImageError α} {e : Engine ImageFile}
    (h : m.run (fresh f map) = .ok r e) : (withEngine f map m).1 = .ok r := by
  rw [fresh] at h
  simp only [withEngine, h]

theorem withEngine_of_error {fault : Fault} {e : Engine ImageFile}
    (h : m.run (fresh f map) = .error fault e) : (withEngine f map m).1 = .error fault := by
  rw [fresh] at h
  simp only [withEngine, h]

theorem sees_fresh (f : ImageFile) (map : FreeMap) : (fresh f map).Sees (f.disk.medium map) :=
  Engine.Sees.start f map Cache.defaultCapacity_pos

section Run

variable {p : Script α} {e e' : Engine ImageFile}

theorem run_script_of_ok {a : α} (h : Engine.run p e = .ok a e') :
    (script p).run e = .ok (.ok a) e' := bind_of_ok h

theorem run_script_of_error {fault : Fault} (h : Engine.run p e = .error fault e') :
    (script p).run e = .error fault e' := bind_of_error h

theorem run_script_bind {β : Type} {a : α} {k : α → ImageM β} (h : Engine.run p e = .ok a e') :
    (script p >>= k).run e = (k a).run e' := bind_of_ok (run_script_of_ok h)

end Run

/-- The sector is read first, to see whether it holds an inode. -/
theorem exists_run_readFile (hs : s.toNat < f.sectors) (map : FreeMap) :
    ∃ e : Engine ImageFile, e.Sees (f.disk.medium map) ∧
      (readFile s).run (fresh f map) =
        (if (Inode.ofSector (f.sectorBytes s.toNat)).isValid then volume (readWhole s)
          else throw (.noInode s) : ImageM (Array UInt8)).run e := by
  have hfetch := Script.eval_fetchSector (ImageFile.lt_size_medium hs map)
  rw [ImageFile.content_medium hs] at hfetch
  obtain ⟨e, hrun, he⟩ := (sees_fresh f map).run (mute_fetchSector s) hfetch
  exact ⟨e, he, run_script_bind hrun⟩

/-- What reading a file answers, told from the bytes of the image. -/
structure Told (f : ImageFile) (s : UInt32)
    (r : Except Fault (Except ImageError (Array UInt8))) : Prop where
  errors : ∀ e, r = .ok (.error e) → e = .noInodeSector s f.sectors ∨ e = .noInode s
  noInodeSector_iff :
    r = .ok (.error (.noInodeSector s f.sectors)) ↔ s = 0 ∨ f.sectors ≤ s.toNat
  noInode_iff : r = .ok (.error (.noInode s)) ↔ s ≠ 0 ∧ s.toNat < f.sectors ∧
    f.word (s.toNat * sectorSize + 12) ≠ Inode.magicNumber.toNat
  data : s ≠ 0 → s.toNat < f.sectors →
    f.word (s.toNat * sectorSize + 12) = Inode.magicNumber.toNat → f.Readable s.toNat →
      ∃ data, r = .ok (.ok data) ∧ data.size = f.word (s.toNat * sectorSize) ∧
        ∀ pos < data.size, data[pos]? = some (f.byteOf s.toNat pos)

theorem isValid_iff : (Inode.ofSector (f.sectorBytes s.toNat)).isValid = true ↔
    f.word (s.toNat * sectorSize + 12) = Inode.magicNumber.toNat := by
  rw [Inode.isValid, beq_iff_eq, ← UInt32.toNat_inj, f.toNat_magic]
  rfl

theorem told_of_outside (h : s = 0 ∨ f.sectors ≤ s.toNat) :
    Told f s (.ok (.error (.noInodeSector s f.sectors))) where
  errors e he := Or.inl (by cases he; rfl)
  noInodeSector_iff := iff_of_true rfl h
  noInode_iff := iff_of_false (by simp) fun hin =>
    h.elim hin.1 fun hle => Nat.not_le.2 hin.2.1 hle
  data hne hlt := absurd h (not_or.2 ⟨hne, Nat.not_le.2 hlt⟩)

theorem told_of_invalid (hne : s ≠ 0) (hs : s.toNat < f.sectors)
    (hmagic : f.word (s.toNat * sectorSize + 12) ≠ Inode.magicNumber.toNat) :
    Told f s (.ok (.error (.noInode s))) where
  errors e he := Or.inr (by cases he; rfl)
  noInodeSector_iff := iff_of_false (by simp) (not_or.2 ⟨hne, Nat.not_le.2 hs⟩)
  noInode_iff := iff_of_true rfl ⟨hne, hs, hmagic⟩
  data _ _ h := absurd h hmagic

/-- Reading a file whose inode is in order may be a fault, but not where the pointers are in
order. -/
theorem told_of_valid {r : Except Fault (Except ImageError (Array UInt8))} (hne : s ≠ 0)
    (hs : s.toNat < f.sectors)
    (hmagic : f.word (s.toNat * sectorSize + 12) = Inode.magicNumber.toNat)
    (hr : ∀ e, r ≠ .ok (.error e)) (hdata : f.Readable s.toNat → ∃ data, r = .ok (.ok data) ∧
      data.size = f.word (s.toNat * sectorSize) ∧
      ∀ pos < data.size, data[pos]? = some (f.byteOf s.toNat pos)) : Told f s r where
  errors e he := absurd he (hr e)
  noInodeSector_iff := iff_of_false (hr _) (not_or.2 ⟨hne, Nat.not_le.2 hs⟩)
  noInode_iff := iff_of_false (hr _) fun h => h.2.2 hmagic
  data _ _ _ hreadable := hdata hreadable

theorem told_cat (f : ImageFile) (s : UInt32) : Told f s (cat f s).1 := by
  rw [cat]
  split
  · rename_i h
    exact told_of_outside h
  · rename_i h
    obtain ⟨hne, hs⟩ := not_or.1 h
    rw [Nat.not_le] at hs
    obtain ⟨e, he, hrun⟩ := exists_run_readFile hs (FreeMap.ofBitmap (Bitmap.blank f.sectors))
    by_cases hvalid : (Inode.ofSector (f.sectorBytes s.toNat)).isValid = true
    · rw [if_pos hvalid] at hrun
      apply told_of_valid hne hs (isValid_iff.1 hvalid)
      · intro x
        cases hwhole : Engine.run ((readWhole s).run' Table.empty) e with
        | ok data e' =>
          rw [withEngine_of_ok (hrun.trans (run_script_of_ok hwhole))]
          exact fun hx => nomatch hx
        | error fault e' =>
          rw [withEngine_of_error (hrun.trans (run_script_of_error hwhole))]
          exact fun hx => nomatch hx
      · intro hreadable
        obtain ⟨data, heval, hsize, hbytes⟩ := ImageFile.exists_readWhole hs hvalid hreadable
        obtain ⟨e', hwhole, -⟩ := he.run (mute_run' (mute_readWhole s)) heval
        rw [ImageFile.pointer_zero] at hsize
        exact ⟨data, withEngine_of_ok (hrun.trans (run_script_of_ok hwhole)), hsize, hbytes⟩
    · rw [if_neg hvalid] at hrun
      rw [withEngine_of_ok hrun]
      exact told_of_invalid hne hs (mt isValid_iff.2 hvalid)

/-- Reading a file from an image, whatever the image's bytes are, gives what is found by following
the pointers by hand, and writes nothing. -/
theorem cat_reads_by_hand (f : ImageFile) (s : UInt32) : Told f s (cat f s).1 ∧ (cat f s).2 = f ∧
    ∀ map, (stateAfter (readFile s).run (fresh f map)).store.Silent f := by
  refine ⟨told_cat f s, ?_, fun map => silent_readFile s _ (Cached.silent_empty _ f)⟩
  rw [cat]
  split
  · rfl
  · exact image_of_silent (silent_readFile s)

/-- In sector 1 there is the inode of a file of 600 bytes with one block, which is sector 2. -/
def sampleByte (i : Nat) : UInt8 :=
  if i / 512 = 2 then 7
  else
    ([(512, 88), (513, 2), (524, 68), (525, 79), (526, 78), (527, 73), (528, 2)].lookup i).getD 0

/-- Three sectors and a rest. -/
def sample : ImageFile where
  bytes := ⟨Array.ofFn fun i : Fin 2000 => sampleByte i.val⟩

theorem byte_sample {i : Nat} (hi : i < 2000) : sample.byte i = sampleByte i := by
  rw [ImageFile.byte, sample, Array.getElem?_ofFn, dif_pos hi, Option.getD_some]

theorem word_sample {i : Nat} (hi : i + 3 < 2000) : sample.word i =
    (sampleByte i).toNat + 256 * (sampleByte (i + 1)).toNat + 65536 * (sampleByte (i + 2)).toNat +
      16777216 * (sampleByte (i + 3)).toNat := by
  rw [ImageFile.word, byte_sample (by omega), byte_sample (by omega), byte_sample (by omega),
    byte_sample hi]

theorem sectors_sample : sample.sectors = 3 := by
  have hsize : sample.size = 2000 := by simp [ImageFile.size, sample, ByteArray.size]
  rw [ImageFile.sectors, hsize]
  rfl

theorem block_sample : sample.block 1 0 = 2 ∧ sample.block 1 1 = 0 := by
  have hfirst : sample.pointer 1 4 = 2 := by
    rw [ImageFile.pointer, word_sample (by decide)]
    decide
  have hsecond : sample.pointer 1 5 = 0 := by
    rw [ImageFile.pointer, word_sample (by decide)]
    decide
  exact ⟨by simp [ImageFile.block, ImageFile.path, hfirst],
    by simp [ImageFile.block, ImageFile.path, hsecond]⟩

theorem readable_sample : sample.Readable 1 := by
  have hlength : sample.pointer 1 0 = 600 := by
    rw [ImageFile.pointer, word_sample (by decide)]
    decide
  obtain ⟨hfirst, hsecond⟩ := block_sample
  intro k hk _
  have hdirect : k < 2 := by
    rw [hlength] at hk
    exact Nat.lt_of_lt_of_le hk (by decide)
  refine ⟨Or.inl (Nat.lt_trans hdirect (by decide)), fun p hp => ?_⟩
  have hpath : sample.path 1 k = [sample.pointer 1 (4 + k)] := if_pos (by omega)
  have hblock : p = sample.block 1 k := by
    rw [hpath] at hp
    rw [ImageFile.block, hpath]
    exact List.mem_singleton.1 hp
  have hcases : k = 0 ∨ k = 1 := by omega
  rw [sectors_sample, hblock]
  rcases hcases with rfl | rfl
  · rw [hfirst]
    decide
  · rw [hsecond]
    decide

theorem sample_is_read_by_hand : (cat sample 3).1 = .ok (.error (.noInodeSector 3 3)) ∧
    (cat sample 2).1 = .ok (.error (.noInode 2)) ∧ (cat sample 1).2 = sample ∧
    ∃ data, (cat sample 1).1 = .ok (.ok data) ∧ data.size = 600 ∧
      data[511]? = some 7 ∧ data[512]? = some 0 := by
  have hsectors := sectors_sample
  obtain ⟨hfirst, hsecond⟩ := block_sample
  obtain ⟨houtside, -⟩ := cat_reads_by_hand sample 3
  obtain ⟨hother, -⟩ := cat_reads_by_hand sample 2
  obtain ⟨hfile, hsame, -⟩ := cat_reads_by_hand sample 1
  refine ⟨?_, ?_, hsame, ?_⟩
  · have houtside' := houtside.noInodeSector_iff.2 (Or.inr (by rw [hsectors]; decide))
    rwa [hsectors] at houtside'
  · refine hother.noInode_iff.2 ⟨by decide, by rw [hsectors]; decide, ?_⟩
    rw [word_sample (by decide)]
    decide
  · have hmagic : sample.word ((1 : UInt32).toNat * sectorSize + 12) =
        Inode.magicNumber.toNat := by
      rw [word_sample (by decide)]
      decide
    have hlength : sample.word ((1 : UInt32).toNat * sectorSize) = 600 := by
      rw [word_sample (by decide)]
      decide
    obtain ⟨data, hdata, hsize, hbytes⟩ :=
      hfile.data (by decide) (by rw [hsectors]; decide) hmagic readable_sample
    rw [hlength] at hsize
    rw [show (1 : UInt32).toNat = 1 from rfl] at hbytes
    have hmapped : ∀ k ≤ 511 / sectorSize, sample.block 1 k ≠ 0 := by
      intro k hk
      obtain rfl : k = 0 := Nat.le_zero.1 hk
      rw [hfirst]
      decide
    refine ⟨data, hdata, hsize, ?_, ?_⟩
    · rw [hbytes 511 (by omega), ImageFile.byteOf, if_pos hmapped,
        show sample.block 1 (511 / sectorSize) = 2 from hfirst, byte_sample (by decide)]
      decide
    · rw [hbytes 512 (by omega), ImageFile.byteOf, if_neg]
      exact fun hall => hall 1 (by decide) hsecond

end Image

end SectorVolume
