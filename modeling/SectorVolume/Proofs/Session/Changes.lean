import SectorVolume.Proofs.Session.Shows

/-!
Changes to the files of a reference that leave its handles alone, and what the volume does
meanwhile. A resize of a file is refused on the volume exactly where the reference refuses it, and
a write gives the same number and the same bytes.
-/

namespace SectorVolume

namespace Reference

variable {r r' r'' : Reference} {x : UInt32} {f f' : File}

/-- The handles stay, and every file that was there is there, and is marked as removed only if it
was. -/
structure Keeps (r r' : Reference) : Prop where
  handles : r'.handles = r.handles
  removed : ∀ x, r'.removed x = r.removed x
  live : ∀ x, (r.files.get? x).isSome → (r'.files.get? x).isSome

theorem Keeps.refl (r : Reference) : r.Keeps r := ⟨rfl, fun _ => rfl, fun _ => id⟩

theorem Keeps.trans (h : r.Keeps r') (h' : r'.Keeps r'') : r.Keeps r'' where
  handles := h'.handles.trans h.handles
  removed x := (h'.removed x).trans (h.removed x)
  live x hx := h'.live x (h.live x hx)

/-- A file in the place of one with the same mark, or of none. -/
theorem keeps_insert (hmark : f'.removed = r.removed x) (space : Space) (names : List UInt32) :
    r.Keeps { r with files := r.files.insert x f', space, names } where
  handles := rfl
  removed y := by
    simp only [Reference.removed, Table.get?_insert]
    split
    · rename_i hy
      rw [hy, Option.any_some]
      exact hmark
    · rfl
  live y hy := by
    simp only [Table.get?_insert]
    split
    · rfl
    · exact hy

theorem keeps_resize (hf : r.files.get? x = some f) (length : Nat) :
    r.Keeps (r.resize x f length).2 := by
  rw [resize]
  split
  · exact Keeps.refl r
  · split
    · exact ⟨rfl, fun _ => rfl, fun _ => id⟩
    · have hmark : (f.resize length).removed = r.removed x := (removed_of_get? hf).symm
      exact keeps_insert hmark _ _

@[simp] theorem names_resize (r : Reference) (x : UInt32) (f : File) (length : Nat) :
    (r.resize x f length).2.names = r.names := by
  rw [resize]
  split
  · rfl
  · split <;> rfl

theorem get?_resize_of_ok {length : Nat} (hok : (r.resize x f length).1 = .ok ()) :
    (r.resize x f length).2.files.get? =
      Function.update r.files.get? x (some (f.resize length)) := by
  rw [resize] at hok ⊢
  split
  · rename_i hlength
    rw [if_pos hlength] at hok
    exact absurd hok (by simp)
  · rename_i hlength
    rw [if_neg hlength] at hok
    split
    · rename_i hfew
      rw [if_pos hfew] at hok
      exact absurd hok (by simp)
    · exact Table.get?_insert_eq_update ..

/-- The length that a file has can be given to it. -/
theorem resize_length (hle : f.length ≤ maxLength) : r.resize x f f.length =
    (.ok (), { r with
      files := r.files.insert x (f.resize f.length)
      space := r.space.exchange f.blocks f.blocks }) := by
  rw [resize, if_neg (Nat.not_lt.2 hle), if_neg (by simp [File.blocks])]
  rfl

section Write

variable {offset : Nat} {data : Array UInt8}

theorem write_of_idle (hidle : (data.isEmpty || decide (0 < denials r.opened x) ||
    decide (wordLimit ≤ offset + data.size)) = true) : r.write x f offset data = (0, r) := by
  rw [write, if_pos hidle]

theorem busy_of_not_idle (hidle : ¬(data.isEmpty || decide (0 < denials r.opened x) ||
    decide (wordLimit ≤ offset + data.size)) = true) :
    data.isEmpty = false ∧ denials r.opened x = 0 ∧ offset + data.size < wordLimit := by
  simp only [Bool.or_eq_true, decide_eq_true_eq, not_or, Bool.not_eq_true, Nat.not_lt, Nat.not_le,
    Nat.le_zero] at hidle
  exact ⟨hidle.1.1, hidle.1.2, hidle.2⟩

/-- A write for which the file cannot be as long as it has to be. -/
theorem write_of_refused {refusal : Refusal} {r' : Reference}
    (hidle : ¬(data.isEmpty || decide (0 < denials r.opened x) ||
      decide (wordLimit ≤ offset + data.size)) = true)
    (hresize : r.resize x f (max f.length (offset + data.size)) = (.error refusal, r')) :
    r.write x f offset data = (0, r') := by
  rw [write, if_neg hidle]
  simp only [hresize]

theorem write_of_resized {r' : Reference}
    (hidle : ¬(data.isEmpty || decide (0 < denials r.opened x) ||
      decide (wordLimit ≤ offset + data.size)) = true)
    (hresize : r.resize x f (max f.length (offset + data.size)) = (.ok (), r')) :
    r.write x f offset data = (data.size, { r' with
      files := r'.files.insert x
        ((f.resize (max f.length (offset + data.size))).overlay offset data) }) := by
  rw [write, if_neg hidle]
  simp only [hresize]

theorem keeps_write (hf : r.files.get? x = some f) (offset : Nat) (data : Array UInt8) :
    r.Keeps (r.write x f offset data).2 ∧ (r.write x f offset data).2.names = r.names := by
  by_cases hidle : (data.isEmpty || decide (0 < denials r.opened x) ||
      decide (wordLimit ≤ offset + data.size)) = true
  · rw [write_of_idle hidle]
    exact ⟨Keeps.refl r, rfl⟩
  · have hkeeps := keeps_resize hf (max f.length (offset + data.size))
    have hnames := names_resize r x f (max f.length (offset + data.size))
    rcases hresize : r.resize x f (max f.length (offset + data.size)) with ⟨refusal | _, r'⟩
    · rw [hresize] at hkeeps hnames
      rw [write_of_refused hidle hresize]
      exact ⟨hkeeps, hnames⟩
    · rw [hresize] at hkeeps hnames
      rw [write_of_resized hidle hresize]
      refine ⟨hkeeps.trans ?_, hnames⟩
      have hmark : ((f.resize (max f.length (offset + data.size))).overlay offset data).removed =
          r'.removed x := by
        rw [hkeeps.removed x, removed_of_get? hf]
        rfl
      exact keeps_insert hmark _ _

end Write

end Reference

theorem Space.exchange_self (s : Space) (n : Nat) : s.exchange n n = s := by
  obtain ⟨free, quota⟩ := s
  rw [exchange, Nat.add_sub_cancel, Nat.sub_self]
  cases quota <;> rfl

/-- A file of whole sectors keeps its bytes if it gets the length it has. -/
theorem File.resize_self {f : File} (h : f.bytes.size = dataBlocks f.length * sectorSize) :
    f.resize f.length = f := by
  obtain ⟨length, isDir, children, bytes, removed⟩ := f
  simp only [File.resize, mk.injEq, true_and, and_true]
  apply Array.ext
  · rw [Array.size_ofFn]
    exact h.symm
  · intro i _ hi
    rw [Array.getElem_ofFn, Array.getD_eq_getD_getElem?, Array.getElem?_eq_getElem hi,
      Option.getD_some]

namespace Medium

variable {d : Medium} {r : Reference} {x : UInt32} {n : Inode} {f : File} {reserved : Nat}

/-- The volume gives a file a length where the reference does, and refuses where that refuses. -/
theorem Holds.resize (h : d.Holds reserved r.files.get?) (hspace : d.map.space = r.space)
    (hf : r.files.get? x = some f) (hn : d.Stores x n f) (length : Nat) :
    ∃ result d', (n.resize x length).eval d = .ok (result, d') ∧
      (result.map fun _ => ()) = (r.resize x f length).1 ∧
      d'.Holds reserved (r.resize x f length).2.files.get? ∧
      d'.map.space = (r.resize x f length).2.space ∧
      ∀ m, result = .ok m → d'.Stores x m (f.resize length) := by
  rw [Reference.resize, ← hspace]
  by_cases hlength : maxLength < length
  · rw [if_pos hlength]
    exact ⟨_, d, Inode.eval_resize_of_tooLarge hlength, rfl, h, hspace,
      fun _ hr => absurd hr (by simp)⟩
  · have hle := Nat.le_of_not_lt hlength
    rw [if_neg hlength]
    by_cases hfew : d.map.space.available < totalBlocks length - f.blocks
    · obtain ⟨d', heval, hholds, hspace'⟩ := h.resize_of_few hn hle hfew
      rw [if_pos hfew]
      exact ⟨_, d', heval, rfl, hholds, hspace', fun _ hr => absurd hr (by simp)⟩
    · obtain ⟨m, d', heval, hholds, hstores, hspace'⟩ :=
        h.resize_of_available hf hn hle (Nat.le_of_not_lt hfew)
      rw [if_neg hfew]
      refine ⟨_, d', heval, rfl, ?_, hspace', fun _ hr => ?_⟩
      · rw [Table.get?_insert_eq_update]
        exact hholds
      · obtain rfl := Except.ok.inj hr
        exact hstores

section WriteAt

variable {k : Handle} {g : Registry} {offset : Nat} {data : Array UInt8}
  (h : d.Holds reserved r.files.get?) (hspace : d.map.space = r.space)
  (hf : r.files.get? k.sector = some f) (hn : d.Stores k.sector n f)
  (hidle : ¬(data.isEmpty || decide (0 < denials r.opened k.sector) ||
    decide (wordLimit ≤ offset + data.size)) = true)
  (hdenials : (g.entry k.sector).denials = denials r.opened k.sector)

include h hspace hf hn hidle hdenials

/-- The file is long enough already. -/
theorem Holds.writeAt_inside (hin : offset + data.size ≤ f.length) :
    ∃ d', VolumeM.Gives (k.writeAt offset data) g d (r.write k.sector f offset data).1 g d' ∧
      d'.Holds reserved (r.write k.sector f offset data).2.files.get? ∧
      d'.map.space = (r.write k.sector f offset data).2.space := by
  have hresize := Reference.resize_length (r := r) (x := k.sector) hn.length_le
  rw [File.resize_self hn.size_bytes, Space.exchange_self] at hresize
  rw [Reference.write_of_resized hidle (by rw [Nat.max_eq_left hin]; exact hresize),
    Nat.max_eq_left hin, File.resize_self hn.size_bytes]
  obtain ⟨hdata, hdenied, hlimit⟩ := Reference.busy_of_not_idle hidle
  obtain ⟨d', heval, hholds, _, hmap, _⟩ := h.write hf hn hin
  have hlong : offset + data.size ≤ n.length.toNat := by
    rw [hn.length_eq]
    exact hin
  have hgrown := Handle.eval_grown_of_le hn.hasInode hlong
  refine ⟨d', Handle.gives_writeAt_of_grown hdata (hdenials.trans hdenied) hlimit hgrown heval,
    ?_, ?_⟩
  · rw [Table.get?_insert_eq_update, Table.get?_insert_eq_update, Function.update_idem]
    exact hholds
  · rw [hmap]
    exact hspace

/-- The file has to grow first. -/
theorem Holds.writeAt_beyond (hout : f.length < offset + data.size) :
    ∃ d', VolumeM.Gives (k.writeAt offset data) g d (r.write k.sector f offset data).1 g d' ∧
      d'.Holds reserved (r.write k.sector f offset data).2.files.get? ∧
      d'.map.space = (r.write k.sector f offset data).2.space := by
  have hstop : max f.length (offset + data.size) = offset + data.size := by omega
  obtain ⟨hdata, hdenied, hlimit⟩ := Reference.busy_of_not_idle hidle
  rw [← hdenials] at hdenied
  obtain ⟨result, d', heval, hresult, hholds, hspace', hstores⟩ :=
    h.resize hspace hf hn (offset + data.size)
  have hshort : n.length.toNat < offset + data.size := by
    rw [hn.length_eq]
    exact hout
  have hgrown := Handle.eval_grown_of_lt hn.hasInode hshort
  rw [heval] at hgrown
  have hfiles : (r.resize k.sector f (offset + data.size)).1 = .ok () →
      (r.resize k.sector f (offset + data.size)).2.files.get? =
        Function.update r.files.get? k.sector (some (f.resize (offset + data.size))) :=
    Reference.get?_resize_of_ok
  rcases hresize : r.resize k.sector f (offset + data.size) with ⟨refused, r'⟩
  rw [hresize] at hresult hholds hspace' hfiles
  cases result with
  | error refusal =>
    obtain rfl : Except.error refusal = refused := hresult
    rw [Reference.write_of_refused hidle (by rw [hstop]; exact hresize)]
    exact ⟨d', Handle.gives_writeAt_of_grown hdata hdenied hlimit hgrown rfl, hholds, hspace'⟩
  | ok m =>
    obtain rfl : Except.ok () = refused := hresult
    rw [Reference.write_of_resized hidle (by rw [hstop]; exact hresize), hstop]
    have hf' : r'.files.get? k.sector = some (f.resize (offset + data.size)) := by
      rw [hfiles rfl, Function.update_self]
    obtain ⟨d'', heval', hholds', _, hmap, _⟩ := hholds.write hf' (hstores m rfl)
      (Nat.le_refl (offset + data.size))
    refine ⟨d'', Handle.gives_writeAt_of_grown hdata hdenied hlimit hgrown heval', ?_, ?_⟩
    · rw [Table.get?_insert_eq_update]
      exact hholds'
    · rw [hmap]
      exact hspace'

end WriteAt

/-- A write through a handle changes the file as the reference does. -/
theorem Holds.writeAt (h : d.Holds reserved r.files.get?) (hspace : d.map.space = r.space)
    {k : Handle} (hf : r.files.get? k.sector = some f) {g : Registry}
    (hdenials : (g.entry k.sector).denials = denials r.opened k.sector) (offset : Nat)
    (data : Array UInt8) :
    ∃ d', VolumeM.Gives (k.writeAt offset data) g d (r.write k.sector f offset data).1 g d' ∧
      d'.Holds reserved (r.write k.sector f offset data).2.files.get? ∧
      d'.map.space = (r.write k.sector f offset data).2.space := by
  obtain ⟨n, hn⟩ := h.stores k.sector f hf
  by_cases hidle : (data.isEmpty || decide (0 < denials r.opened k.sector) ||
      decide (wordLimit ≤ offset + data.size)) = true
  · rw [Reference.write_of_idle hidle]
    rw [← hdenials] at hidle
    simp only [Bool.or_eq_true, decide_eq_true_eq, or_assoc] at hidle
    exact ⟨d, Handle.gives_writeAt_of_idle hidle, h, hspace⟩
  · rcases Nat.lt_or_ge f.length (offset + data.size) with hout | hin
    · exact h.writeAt_beyond hspace hf hn hidle hdenials hout
    · exact h.writeAt_inside hspace hf hn hidle hdenials hin

end Medium

end SectorVolume
