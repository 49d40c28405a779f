import SectorVolume.Proofs.Session.Partition

/-!
What growing a file shows of the past. Sectors that the file gains are zero, but its last sector
stays as it is, and behind the old end it holds what was written there before the file was cut. A
file that is cut inside a sector and grows again shows those bytes.
-/

namespace SectorVolume

namespace File

variable {f : File} {length p : Nat}

theorem getD_resize (f : File) (hp : p < dataBlocks length * sectorSize) :
    (f.resize length).bytes.getD p 0 = f.bytes.getD p 0 := by
  rw [resize, Array.getD_eq_getD_getElem?, Array.getElem?_ofFn, dif_pos hp, Option.getD_some]

theorem getD_overlay_of_lt (f : File) {offset : Nat} (data : Array UInt8) (hp : p < offset) :
    (f.overlay offset data).bytes.getD p 0 = f.bytes.getD p 0 := by
  simp only [overlay, Array.getD_eq_getD_getElem?, Array.getElem?_ofFn]
  by_cases hsize : p < f.bytes.size
  · rw [dif_pos hsize, if_neg (by omega), Array.getElem?_eq_getElem hsize]
    rfl
  · rw [dif_neg hsize, Array.getElem?_eq_none (by omega)]

theorem read_one (hp : p < f.length) (hsize : f.length ≤ f.bytes.size) :
    f.read p 1 = #[f.bytes.getD p 0] := by
  have hlt : p < f.bytes.size := by omega
  rw [read, if_pos (by omega)]
  apply Array.ext
  · simp only [Array.size_extract, List.size_toArray, List.length_singleton]
    omega
  · intro i hi _
    simp only [Array.size_extract] at hi
    obtain rfl : i = 0 := by omega
    simp [hlt]

end File

namespace Session

variable {s : Session} {r : Reference} {reserved k p : Nat} {h : Handle} {f : File}

/-- What the file with its inode in sector `x` has in its sectors for position `p`, be it behind
the end of the file. -/
def hidden (s : Session) (x : UInt32) (p : Nat) : UInt8 :=
  ((s.inodeAt x).byte? s.engine.store.content p).getD 0

/-- A byte of the file on handle `k` is read as `b`. -/
def Reads (s : Session) (k p : Nat) (b : UInt8) : Prop :=
  ∃ s', run (.handle k (.read p #[0])) s = .ok (.buffer 1 #[b]) s'

theorem Shows.exists_file (hs : s.Shows reserved [] r) (hk : s.handles.get? k = some h) :
    r.handles.get? k = some h ∧ ∃ f, r.files.get? h.sector = some f ∧
      s.engine.medium.Stores h.sector (s.inodeAt h.sector) f := by
  have hk' : r.handles.get? k = some h := hs.handles ▸ hk
  obtain ⟨f, hf⟩ := Option.isSome_iff_exists.1 (hs.live h (Shows.mem_opened hk'))
  obtain ⟨n, hn⟩ := hs.holds.stores h.sector f hf
  obtain rfl : s.inodeAt h.sector = n := hn.hasInode.ofSector_eq
  exact ⟨hk', f, hf, hn⟩

/-- A file has nothing behind its last sector. -/
theorem hidden_of_le {x : UInt32} (hn : s.engine.medium.Stores x (s.inodeAt x) f)
    (hp : dataBlocks f.length * sectorSize ≤ p) : s.hidden x p = 0 := by
  have hblock : dataBlocks f.length ≤ p / sectorSize := by
    simp only [sectorSize] at *
    omega
  have hnone : ((s.inodeAt x).forest s.engine.store.content).block? (p / sectorSize) = none := by
    by_cases hspan : p / sectorSize < ((s.inodeAt x).forest s.engine.store.content).span
    · rw [← Option.not_isSome_iff_eq_none]
      exact fun hsome =>
        Nat.not_lt.2 hblock ((Forest.isSome_block?_of_fits hn.fits hspan).1 hsome)
    · exact Forest.block?_of_span_le (Nat.not_lt.1 hspan)
  rw [hidden, Inode.byte?, hnone]
  rfl

theorem hidden_eq {x : UInt32} (hn : s.engine.medium.Stores x (s.inodeAt x) f) (p : Nat) :
    s.hidden x p = f.bytes.getD p 0 := by
  by_cases hp : p < f.bytes.size
  · have hbyte := hn.bytes_eq p hp
    rw [hidden, Array.getD_eq_getD_getElem?, hbyte]
    rfl
  · have hp' : dataBlocks f.length * sectorSize ≤ p := by
      rw [← hn.size_bytes]
      exact Nat.not_lt.1 hp
    rw [hidden_of_le hn hp', Array.getD_eq_getD_getElem?,
      Array.getElem?_eq_none (Nat.not_lt.1 hp)]
    rfl

/-- A byte inside a file is read as the reference has it. -/
theorem Shows.reads (hs : s.Shows reserved [] r) (hk : r.handles.get? k = some h)
    (hf : r.files.get? h.sector = some f) (hp : p < f.length) :
    s.Reads k p (f.bytes.getD p 0) := by
  obtain ⟨n, hn⟩ := hs.holds.stores h.sector f hf
  have hfollows := follows_runHandle hs hk hf (.read p #[0])
  rw [← run_handle (by rw [hs.handles, hk])] at hfollows
  cases hrun : run (.handle k (.read p #[0])) s with
  | error g s' =>
    rw [hrun] at hfollows
    exact False.elim hfollows
  | ok a s' =>
    rw [hrun] at hfollows
    refine ⟨s', ?_⟩
    rw [hrun, hfollows.1 _ rfl]
    congr 1
    have hread : f.read p (#[0] : Array UInt8).size = #[f.bytes.getD p 0] :=
      File.read_one hp hn.length_le_size
    rw [hread]
    rfl

theorem lt_dataBlocks {p length : Nat} (hp : p < length) :
    p < dataBlocks length * sectorSize := by
  simp only [dataBlocks, sectorSize]
  omega

theorem Shows.reads_of_resize (hs : s.Shows reserved [] r) (hk : r.handles.get? k = some h)
    (hf : r.files.get? h.sector = some f) {length : Nat} {s' : Session}
    (hrun : run (.handle k (.resize length)) s = .ok (.result (.ok ())) s') (hp : p < length) :
    s'.Reads k p (f.bytes.getD p 0) := by
  have hfollows := follows_runHandle hs hk hf (.resize length)
  rw [← run_handle (by rw [hs.handles, hk]), hrun] at hfollows
  obtain ⟨hanswer, hs', -⟩ := hfollows
  have hok : (r.resize h.sector f length).1 = .ok () := by
    injection (hanswer _ rfl).symm
  have hk' : (r.resize h.sector f length).2.handles.get? k = some h := by
    rw [(Reference.keeps_resize hf length).handles, hk]
  have hf' : (r.resize h.sector f length).2.files.get? h.sector = some (f.resize length) := by
    rw [Reference.get?_resize_of_ok hok, Function.update_self]
  have hread := hs'.reads hk' hf' hp
  rwa [File.getD_resize f (lt_dataBlocks hp)] at hread

theorem Shows.reads_of_write (hs : s.Shows reserved [] r) (hk : r.handles.get? k = some h)
    (hf : r.files.get? h.sector = some f) {offset : Nat} {data : Array UInt8} {s' : Session}
    (hdata : data ≠ #[])
    (hrun : run (.handle k (.write offset data)) s = .ok (.number data.size) s')
    (hp : p < offset) : s'.Reads k p (f.bytes.getD p 0) := by
  have hfollows := follows_runHandle hs hk hf (.write offset data)
  rw [← run_handle (by rw [hs.handles, hk]), hrun] at hfollows
  obtain ⟨hanswer, hs', -⟩ := hfollows
  have hwritten : data.size = (r.write h.sector f offset data).1 := by
    injection hanswer _ rfl
  have hpos : 0 < data.size := Array.size_pos_iff.2 hdata
  have hk' : (r.write h.sector f offset data).2.handles.get? k = some h := by
    rw [(Reference.keeps_write hf offset data).1.handles, hk]
  have hbusy : ¬(data.isEmpty || decide (0 < denials r.opened h.sector) ||
      decide (wordLimit ≤ offset + data.size)) = true := by
    intro hidle
    rw [Reference.write_of_idle hidle] at hwritten
    exact Nat.ne_of_gt hpos hwritten
  rcases hresize : r.resize h.sector f (max f.length (offset + data.size)) with ⟨refusal | _, r'⟩
  · rw [Reference.write_of_refused hbusy hresize] at hwritten
    exact absurd hwritten (Nat.ne_of_gt hpos)
  · have hfile : (r.write h.sector f offset data).2.files.get? h.sector =
        some ((f.resize (max f.length (offset + data.size))).overlay offset data) := by
      rw [Reference.write_of_resized hbusy hresize, Table.get?_insert, if_pos rfl]
    have hlength : p < max f.length (offset + data.size) := by omega
    have hread := hs'.reads hk' hfile hlength
    rwa [File.getD_overlay_of_lt _ data hp, File.getD_resize f (lt_dataBlocks hlength)] at hread

/-- What growth shows. From the old end on, up to the new one or to the bytes that are written,
the file has what its last sector held there, and nothing but zeros behind that sector. -/
theorem growth_shows_the_last_sector {disk : RamDisk} {mapped reserved capacity : Nat}
    (hreserved : 0 < reserved) (hfit : reserved ≤ mapped) (hmapped : mapped ≤ disk.sectors.size)
    (hsectors : disk.sectors.size ≤ UInt32.size) (hcapacity : 0 < capacity) (others : Nat) :
    ∃ s₀, startOn disk mapped reserved capacity others = .ok s₀ ∧
      ∀ history s k h, Reference.admitsAll history (Reference.start (mapped - reserved)
          ((play history s₀).answers.flatMap made)) = true →
        (play history s₀).final = .ok s → s.handles.get? k = some h →
        (∀ p, dataBlocks (s.inodeAt h.sector).length.toNat * sectorSize ≤ p →
          s.hidden h.sector p = 0) ∧
        (∀ length s', run (.handle k (.resize length)) s = .ok (.result (.ok ())) s' →
          ∀ p, (s.inodeAt h.sector).length.toNat ≤ p → p < length →
            s'.Reads k p (s.hidden h.sector p)) ∧
        (∀ offset data s', data ≠ #[] →
          run (.handle k (.write offset data)) s = .ok (.number data.size) s' →
          ∀ p, (s.inodeAt h.sector).length.toNat ≤ p → p < offset →
            s'.Reads k p (s.hidden h.sector p)) := by
  obtain ⟨s₀, hstart, hshows⟩ := exists_start hreserved hfit hmapped hsectors hcapacity others
  refine ⟨s₀, hstart, fun history s k h hadmits hlast hk => ?_⟩
  obtain ⟨answers, final, -, -, hends⟩ := follows_play history (hshows _) rfl hadmits
  rw [hlast] at hends
  cases final with
  | error f => exact False.elim hends
  | ok r =>
    have hs : s.Shows reserved [] r := hends
    obtain ⟨hk', f, hf, hn⟩ := hs.exists_file hk
    refine ⟨fun p hp => ?_, fun length s' hrun p _ hp => ?_,
      fun offset data s' hdata hrun p _ hp => ?_⟩
    · rw [hn.length_eq] at hp
      exact hidden_of_le hn hp
    · rw [hidden_eq hn]
      exact hs.reads_of_resize hk' hf hrun hp
    · rw [hidden_eq hn]
      exact hs.reads_of_write hk' hf hdata hrun hp

/-- Three bytes are written, and the file is cut to the first of them. -/
def cutRun : List Step :=
  [.make 3 false, .open 0 1, .handle 0 (.write 0 #[255, 255, 255]), .handle 0 (.resize 1)]

/-- The answer to a resize that is not refused. -/
def isGranted : Answer → Bool
  | .result (.ok ()) => true
  | _ => false

theorem eq_of_isGranted {a : Answer} (h : isGranted a = true) : a = .result (.ok ()) := by
  unfold isGranted at h
  split at h
  · rfl
  · cases h

theorem run_of_isGranted {s : Session} {step : Step}
    (h : (play [step] s).answers.any isGranted = true) :
    ∃ s', run step s = .ok (.result (.ok ())) s' := by
  cases hrun : run step s with
  | error f s' => simp [play, Transcript.ofSteps, hrun] at h
  | ok a s' =>
    refine ⟨s', ?_⟩
    have hgranted : isGranted a = true := by simpa [play, Transcript.ofSteps, hrun] using h
    rw [eq_of_isGranted hgranted]

theorem exists_cut {s₀ : Session} (hstart : startOn usedDisk 8 1 1 0 = .ok s₀) :
    (play cutRun s₀).answers.flatMap made = [1] ∧
      ∃ s s', (play cutRun s₀).final = .ok s ∧ s.handles.get? 0 = some ⟨1, false⟩ ∧
        (s.inodeAt 1).length.toNat = 1 ∧ s.hidden 1 2 = 255 ∧
        run (.handle 0 (.resize 3)) s = .ok (.result (.ok ())) s' := by
  have heval : (startOn usedDisk 8 1 1 0).toOption.bind (fun s₀ =>
      (play cutRun s₀).final.toOption.map fun s => ((play cutRun s₀).answers.flatMap made,
        s.handles.get? 0, (s.inodeAt 1).length.toNat, s.hidden 1 2,
        (play [.handle 0 (.resize 3)] s).answers.any isGranted)) =
      some ([1], some ⟨1, false⟩, 1, 255, true) := by
    decide +kernel
  obtain ⟨s, hlast, hs⟩ := exists_end_of_usedDisk hstart heval
  simp only [Prod.mk.injEq] at hs
  obtain ⟨hmade, hk, hlength, hhidden, hgranted⟩ := hs
  obtain ⟨s', hrun⟩ := run_of_isGranted hgranted
  exact ⟨hmade, s, s', hlast, hk, hlength, hhidden, hrun⟩

/-- The file grows to three bytes again, of which nobody wrote the last one since. It is not
zero. -/
theorem cut_bytes_come_back :
    ∃ s₀ s s', startOn usedDisk 8 1 1 0 = .ok s₀ ∧ (play cutRun s₀).final = .ok s ∧
      (s.inodeAt 1).length.toNat = 1 ∧
      run (.handle 0 (.resize 3)) s = .ok (.result (.ok ())) s' ∧ s'.Reads 0 2 255 := by
  have hsize : usedDisk.sectors.size = 8 := Array.size_replicate
  obtain ⟨s₀, hstart, hgrowth⟩ := growth_shows_the_last_sector (by decide : 0 < 1)
    (by decide : 1 ≤ 8) (Nat.le_of_eq hsize.symm) (by rw [hsize]; decide) (by decide : 0 < 1) 0
  obtain ⟨hmade, s, s', hlast, hk, hlength, hhidden, hrun⟩ := exists_cut hstart
  obtain ⟨-, hresize, -⟩ := hgrowth cutRun s 0 ⟨1, false⟩ (by
    rw [hmade]
    decide +kernel) hlast hk
  refine ⟨s₀, s, s', hstart, hlast, hlength, hrun, ?_⟩
  have hreads := hresize 3 s' hrun 2 (by rw [hlength]; decide) (by decide)
  rwa [hhidden] at hreads

end Session

end SectorVolume
