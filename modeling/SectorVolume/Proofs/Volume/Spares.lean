import SectorVolume.Proofs.Session.Changes

/-!
What making, growing, cutting and writing one file does to another: nothing. A new file lies in
sectors that were free, and a resize or a write touches the sectors of its own file and free ones.
-/

namespace SectorVolume

namespace Medium

variable {d d' d'' : Medium} {x y : UInt32} {n : Inode} {f : File} {files : UInt32 → Option File}
  {reserved : Nat}

/-- The sectors of the file at `x` hold the same bytes on the second medium. -/
def Spares (x : UInt32) (d d' : Medium) : Prop := ∀ t ∈ d.owned x, d'.content t = d.content t

theorem Spares.refl (x : UInt32) (d : Medium) : Spares x d d := fun _ _ => rfl

theorem Spares.trans (hn : d.Stores x n f) (h : Spares x d d') (h' : Spares x d' d'') :
    Spares x d d'' := by
  intro t ht
  have howned := hn.owned_congr h
  exact (h' t (by rwa [howned])).trans (h t ht)

section Others

variable (h : d.Holds reserved files) (hx : (files x).isSome)

include h hx

/-- Bytes change in free sectors only. -/
theorem Holds.spares_of_used (hcontent : ∀ t : UInt32, d.map.bitmap.used? t.toNat = some true →
    d'.content t = d.content t) : Spares x d d' := fun t ht => hcontent t (h.used_owned hx ht)

/-- Bytes change in the sectors of another file only. -/
theorem Holds.spares_of_owned (hy : (files y).isSome) (hne : x ≠ y)
    (hcontent : ∀ t, t ∉ d.owned y → d'.content t = d.content t) : Spares x d d' :=
  fun t ht => hcontent t (h.apart x y hx hy hne t ht)

theorem Holds.spares_of_changed (hy : (files y).isSome) (hne : x ≠ y) {new : List UInt32}
    (hchanged : d.Changed d' (d.owned y) new) : Spares x d d' := fun t ht =>
  hchanged.content t (h.used_owned hx ht) (h.apart x y hx hy hne t ht)

end Others

/-- Another file gets another length, or a refusal. -/
theorem Holds.resize_spares (h : d.Holds reserved files) (hx : (files x).isSome)
    (hf : files y = some f) (hn : d.Stores y n f) (hne : x ≠ y) {length : Nat}
    {result : Except Refusal Inode} (heval : (n.resize y length).eval d = .ok (result, d')) :
    Spares x d d' := by
  have hy : (files y).isSome := by rw [hf]; rfl
  by_cases hlength : maxLength < length
  · rw [Inode.eval_resize_of_tooLarge hlength] at heval
    cases heval
    exact Spares.refl x d
  · have hle := Nat.le_of_not_lt hlength
    by_cases hfew : d.map.space.available < totalBlocks length - f.blocks
    · rw [← FreeMap.length_supply, ← hn.lacking_eq hle] at hfew
      obtain ⟨d₁, heval₁, hundone⟩ := Inode.eval_resize_of_lacking hn.placed hle hfew
      rw [heval₁] at heval
      cases heval
      exact h.spares_of_used hx fun t ht => hundone.kept t (FreeMap.notMem_supply h.within ht)
    · obtain ⟨m, d₁, taken, rest, heval₁, -, hsupply, -, hresized⟩ :=
        h.exists_resized hf hn hle (Nat.le_of_not_lt hfew)
      rw [heval₁] at heval
      cases heval
      exact h.spares_of_changed hx hy hne (changed_of_resized hn hsupply hresized)

/-- The number of children of another file changes. -/
theorem Holds.put_spares (h : d.Holds reserved files) (hx : (files x).isSome)
    (hy : (files y).isSome) (hne : x ≠ y) (data : Sector) : Spares x d (d.put y data) := by
  refine h.spares_of_owned hx hy hne fun t ht => content_put_of_ne ?_
  rintro rfl
  exact ht (by rw [owned]; exact List.mem_cons_self)

/-- Another file is made, and gets its length or a refusal. -/
theorem Holds.make_spares (h : d.Holds reserved files) (hx : (files x).isSome)
    {rest : List UInt32}
    (hsupply : d.map.supply = y :: rest) {isDir : Bool} {length : Nat}
    {result : Except Refusal Inode}
    (heval : ((Inode.blank isDir).resize y length).eval
      (({ d with map := d.map.grant y } : Medium).put y (Inode.blank isDir).toSector) =
        .ok (result, d')) : Spares x d d' ∧ x ≠ y := by
  have hfree := FreeMap.mem_supply h.within (s := y) (by simp [hsupply])
  have hne : x ≠ y := by
    rintro rfl
    rw [h.none_of_free hfree] at hx
    cases hx
  obtain ⟨f, hf⟩ := Option.isSome_iff_exists.1 hx
  obtain ⟨n, hn⟩ := h.stores x f hf
  obtain ⟨-, hholds, hstores, -⟩ := h.make hsupply isDir rfl
  have hfirst : Spares x d
      (({ d with map := d.map.grant y } : Medium).put y (Inode.blank isDir).toSector) :=
    h.spares_of_used hx fun t ht => (changed_of_made hfree rfl).content t ht (by simp)
  refine ⟨hfirst.trans hn (hholds.resize_spares ?_ (Function.update_self ..) hstores hne heval),
    hne⟩
  rw [Function.update_of_ne hne]
  exact hx

section WriteAt

variable {r : Reference} {k : Handle} {g g' : Registry} {offset written : Nat}
  {data : Array UInt8} (h : d.Holds reserved r.files.get?) (hspace : d.map.space = r.space)
  (hx : (r.files.get? x).isSome) (hf : r.files.get? k.sector = some f) (hne : x ≠ k.sector)

include h hspace hx hf hne

/-- Another file is written, for which it grows where it has to. -/
theorem Holds.writeAt_spares
    (hgives : VolumeM.Gives (k.writeAt offset data) g d written g' d') : Spares x d d' := by
  obtain ⟨n, hn⟩ := h.stores k.sector f hf
  obtain ⟨fx, hfx⟩ := Option.isSome_iff_exists.1 hx
  obtain ⟨nx, hnx⟩ := h.stores x fx hfx
  have hy : (r.files.get? k.sector).isSome := by rw [hf]; rfl
  by_cases hidle : data.isEmpty = true ∨ 0 < (g.entry k.sector).denials ∨
      wordLimit ≤ offset + data.size
  · have hsame := (Handle.gives_writeAt_of_idle hidle).symm.trans hgives
    cases hsame
    exact Spares.refl x d
  · simp only [not_or, Bool.not_eq_true, Nat.not_lt, Nat.not_le, Nat.le_zero] at hidle
    obtain ⟨hdata, hdenials, hlimit⟩ := hidle
    rcases Nat.lt_or_ge f.length (offset + data.size) with hout | hin
    · obtain ⟨result, d₁, heval, hresult, hholds, -, hstores⟩ :=
        h.resize hspace hf hn (offset + data.size)
      have hgrown := Handle.eval_grown_of_lt hn.hasInode (hn.length_eq ▸ hout)
      rw [heval] at hgrown
      have hfirst := h.resize_spares hx hf hn hne heval
      cases result with
      | error refusal =>
        have hsame :=
          (Handle.gives_writeAt_of_grown hdata hdenials hlimit hgrown rfl).symm.trans hgives
        cases hsame
        exact hfirst
      | ok m =>
        rw [Reference.get?_resize_of_ok hresult.symm] at hholds
        obtain ⟨d₂, heval₂, -, -, -, hkept⟩ :=
          hholds.write (Function.update_self ..) (hstores m rfl)
          (Nat.le_refl (offset + data.size))
        have hsame :=
          (Handle.gives_writeAt_of_grown hdata hdenials hlimit hgrown heval₂).symm.trans hgives
        cases hsame
        refine hfirst.trans hnx (hholds.spares_of_owned ?_ ?_ hne hkept)
        · rw [Function.update_of_ne hne]
          exact hx
        · rw [Function.update_self]
          rfl
    · obtain ⟨d₁, heval, -, -, -, hkept⟩ := h.write hf hn hin
      have hgrown := Handle.eval_grown_of_le hn.hasInode (hn.length_eq ▸ hin)
      have hsame :=
        (Handle.gives_writeAt_of_grown hdata hdenials hlimit hgrown heval).symm.trans hgives
      cases hsame
      exact h.spares_of_owned hx hy hne hkept

end WriteAt

end Medium

end SectorVolume
