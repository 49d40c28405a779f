import SectorVolume.Proofs.Index.Tree

/-!
Rows of trees that fit a number of data blocks: they have just the blocks below that number, need
no sector more and have none to give back, and their number of sectors is settled by that of their
data blocks. Different data blocks of a row without repeated sectors lie in different sectors.
-/

namespace SectorVolume

theorem span_zero : span 0 = 1 := rfl

theorem span_one : span 1 = 128 := rfl

theorem span_two : span 2 = 16384 := rfl

theorem span_pos (level : Nat) : 0 < span level := by
  induction level with
  | zero => decide
  | succ level ih =>
    simp only [span]
    omega

namespace Forest

/-- Rows of trees are built from holes, data blocks, and index blocks over rows of trees. -/
theorem induction {P : Forest → Prop} (nil : P [])
    (hole : ∀ level F, P F → P (⟨level, .hole⟩ :: F))
    (data : ∀ s F, P F → P (⟨0, .data s⟩ :: F))
    (index : ∀ level s (below : Fin 128 → Tree level) F, P (ofBelow below) → P F →
      P (⟨level + 1, .index s below⟩ :: F)) (F : Forest) : P F := by
  have hrow : ∀ F : Forest, (∀ t ∈ F, ∀ G, P G → P (t :: G)) → P F := by
    intro F
    induction F with
    | nil => exact fun _ => nil
    | cons t F ih =>
      intro h
      exact h t List.mem_cons_self F (ih fun u hu => h u (List.mem_cons_of_mem _ hu))
  have htree : ∀ {level : Nat} (t : Tree level) (G : Forest), P G → P (⟨level, t⟩ :: G) := by
    intro level t
    induction t with
    | hole => exact hole _
    | data s => exact data s
    | @index level s below ih =>
      intro G hG
      apply index level s below G _ hG
      apply hrow
      intro t ht G hG
      obtain ⟨k, rfl⟩ := (List.mem_ofFn).1 ht
      exact ih k G hG
  exact hrow F fun t _ => htree t.2

theorem span_ofBelow {level : Nat} (below : Fin 128 → Tree level) :
    (ofBelow below).span = SectorVolume.span (level + 1) := span_ofFn below

/-- The sectors of a row are those of its index blocks and those of its data blocks. -/
theorem sectors_perm (F : Forest) : F.sectors.Perm (F.nodes ++ F.leaves) := by
  induction F using induction with
  | nil => exact List.Perm.refl _
  | hole level F ih => exact ih
  | data s F ih =>
    simp only [sectors_cons, nodes_cons, leaves_cons, Tree.sectors, Tree.nodes, Tree.leaves,
      List.nil_append, List.singleton_append]
    exact (ih.cons s).trans List.perm_middle.symm
  | index level s below F ihb ih =>
    simp only [sectors_cons, nodes_cons, leaves_cons, Tree.sectors_index, Tree.nodes_index,
      Tree.leaves_index, List.cons_append]
    refine List.Perm.cons s ((ihb.append ih).trans ?_)
    simp only [List.append_assoc]
    refine List.Perm.append_left _ ?_
    simp only [← List.append_assoc]
    exact List.Perm.append_right _ List.perm_append_comm

theorem mem_sectors {F : Forest} {s : UInt32} : s ∈ F.sectors ↔ s ∈ F.nodes ∨ s ∈ F.leaves := by
  rw [F.sectors_perm.mem_iff, List.mem_append]

/-- Without data blocks nothing is needed. -/
theorem beyond_zero (F : Forest) : (F.beyond 0).Perm F.sectors := by
  induction F using induction with
  | nil => exact List.Perm.refl _
  | hole level F ih => simpa [Tree.beyond, Tree.sectors] using ih
  | data s F ih => simpa [Tree.beyond, Tree.sectors] using ih
  | index level s below F ihb ih =>
    simp only [beyond_cons, sectors_cons, Tree.beyond_index, Tree.sectors_index, if_true,
      Nat.zero_sub, List.append_assoc, List.cons_append]
    exact List.perm_middle.trans ((ihb.append ih).cons s)

/-- What is not needed are sectors of the row, each as often as there. -/
theorem beyond_sublist_perm (F : Forest) (n : Nat) :
    ∃ kept, F.sectors.Perm (kept ++ F.beyond n) := by
  induction F using induction generalizing n with
  | nil => exact ⟨[], List.Perm.refl _⟩
  | hole level F ih =>
    obtain ⟨kept, hkept⟩ := ih (n - SectorVolume.span level)
    exact ⟨kept, by simpa [Tree.beyond, Tree.sectors] using hkept⟩
  | data s F ih =>
    obtain ⟨kept, hkept⟩ := ih (n - SectorVolume.span 0)
    by_cases hn : n = 0
    · refine ⟨kept, ?_⟩
      simp only [sectors_cons, beyond_cons, Tree.sectors, Tree.beyond, hn, if_true,
        List.singleton_append] at hkept ⊢
      exact (hkept.cons s).trans List.perm_middle.symm
    · refine ⟨s :: kept, ?_⟩
      simp only [sectors_cons, beyond_cons, Tree.sectors, Tree.beyond, hn, if_false,
        List.nil_append, List.cons_append]
      exact hkept.cons s
  | index level s below F ihb ih =>
    obtain ⟨keptb, hkeptb⟩ := ihb n
    obtain ⟨kept, hkept⟩ := ih (n - SectorVolume.span (level + 1))
    have hboth := (hkeptb.append hkept).cons s
    simp only [sectors_cons, beyond_cons, Tree.sectors_index, Tree.beyond_index, List.cons_append]
    by_cases hn : n = 0
    · refine ⟨keptb ++ kept, hboth.trans ?_⟩
      simp only [hn, if_true]
      rw [List.perm_iff_count]
      intro a
      simp only [List.count_cons, List.count_append, List.count_nil]
      omega
    · refine ⟨s :: (keptb ++ kept), hboth.trans ?_⟩
      simp only [hn, if_false]
      rw [List.perm_iff_count]
      intro a
      simp only [List.count_cons, List.count_append, List.count_nil]
      omega

theorem beyond_subset {F : Forest} {n : Nat} {s : UInt32} (h : s ∈ F.beyond n) :
    s ∈ F.sectors := by
  obtain ⟨kept, hkept⟩ := F.beyond_sublist_perm n
  exact hkept.mem_iff.2 (List.mem_append_right _ h)

theorem nodup_beyond {F : Forest} (h : F.sectors.Nodup) (n : Nat) : (F.beyond n).Nodup := by
  obtain ⟨kept, hkept⟩ := F.beyond_sublist_perm n
  exact (List.nodup_append.1 (hkept.nodup_iff.1 h)).2.1

/-- A row that is needed to the end has nothing to give back. -/
theorem beyond_of_span_le (F : Forest) {n : Nat} (h : F.span ≤ n) : F.beyond n = [] := by
  induction F using induction generalizing n with
  | nil => rfl
  | hole level F ih =>
    simp only [span] at h
    simp only [beyond_cons, Tree.beyond, List.nil_append]
    exact ih (by omega)
  | data s F ih =>
    have hpos := span_pos 0
    simp only [span] at h
    simp only [beyond_cons, Tree.beyond, if_neg (show ¬n = 0 by omega), List.nil_append]
    exact ih (by omega)
  | index level s below F ihb ih =>
    have hpos := span_pos (level + 1)
    have hb := span_ofBelow below
    simp only [span] at h
    simp only [beyond_cons, Tree.beyond_index, if_neg (show ¬n = 0 by omega), List.append_nil]
    rw [ihb (by omega), ih (by omega), List.nil_append]

theorem lacking_tree_zero {level : Nat} (t : Tree level) : t.lacking 0 = 0 := by
  induction level with
  | zero => simp [Tree.lacking]
  | succ level ih =>
    simp only [Tree.lacking, ne_eq, not_true_eq_false, and_false, if_false, Nat.zero_sub,
      Nat.zero_add, ih]
    rw [List.sum_eq_zero]
    intro x hx
    obtain ⟨_, rfl⟩ := List.mem_ofFn.1 hx
    rfl

theorem lacking_zero (F : Forest) : F.lacking 0 = 0 := by
  induction F with
  | nil => rfl
  | cons t F ih => rw [lacking_cons, lacking_tree_zero, Nat.zero_sub, ih]

/-- A row that fits gives nothing back when more is needed. -/
theorem beyond_of_fits {F : Forest} {m n : Nat} (hfits : F.Fits m) (hle : m ≤ n) :
    F.beyond n = [] := by
  induction F using induction generalizing m n with
  | nil => rfl
  | hole level F ih =>
    obtain ⟨_, hfits⟩ := (fits_cons _ _ _).1 hfits
    simp only [beyond_cons, Tree.beyond, List.nil_append]
    exact ih hfits (Nat.sub_le_sub_right hle _)
  | data s F ih =>
    obtain ⟨hm, hfits⟩ := (fits_cons _ _ _).1 hfits
    simp only [Tree.Fits] at hm
    simp only [beyond_cons, Tree.beyond, if_neg (show ¬n = 0 by omega), List.nil_append]
    exact ih hfits (Nat.sub_le_sub_right hle _)
  | index level s below F ihb ih =>
    obtain ⟨htree, hfits⟩ := (fits_cons _ _ _).1 hfits
    obtain ⟨hm, hbelow⟩ := (Tree.fits_index s below m).1 htree
    simp only [beyond_cons, Tree.beyond_index, if_neg (show ¬n = 0 by omega), List.append_nil]
    rw [ihb hbelow hle, ih hfits (Nat.sub_le_sub_right hle _), List.nil_append]

/-- A row that fits lacks nothing when less is needed. -/
theorem lacking_of_fits_of_le {F : Forest} {m n : Nat} (hfits : F.Fits m) (hle : n ≤ m) :
    F.lacking n = 0 := by
  induction F using induction generalizing m n with
  | nil => rfl
  | hole level F ih =>
    obtain ⟨hm, hfits⟩ := (fits_cons _ _ _).1 hfits
    simp only [Tree.Fits] at hm
    obtain rfl : n = 0 := by omega
    exact lacking_zero _
  | data s F ih =>
    obtain ⟨_, hfits⟩ := (fits_cons _ _ _).1 hfits
    rw [lacking_cons, Tree.lacking_data, Nat.zero_add]
    exact ih hfits (Nat.sub_le_sub_right hle _)
  | index level s below F ihb ih =>
    obtain ⟨htree, hfits⟩ := (fits_cons _ _ _).1 hfits
    obtain ⟨_, hbelow⟩ := (Tree.fits_index s below m).1 htree
    rw [lacking_cons, Tree.lacking_index, ihb hbelow hle, ih hfits (Nat.sub_le_sub_right hle _)]

/-- The row with holes only. -/
def bare (F : Forest) : Forest := F.map fun t => ⟨t.1, .hole⟩

@[simp] theorem bare_nil : bare [] = [] := rfl

@[simp] theorem bare_cons (t : (level : Nat) × Tree level) (F : Forest) :
    bare (t :: F) = ⟨t.1, .hole⟩ :: F.bare := rfl

@[simp] theorem bare_append (F G : Forest) : (F ++ G : Forest).bare = F.bare ++ G.bare :=
  List.map_append

theorem bare_ofFn {level m : Nat} (f : Fin m → Tree level) :
    bare (List.ofFn fun k => ⟨level, f k⟩) = List.ofFn fun _ : Fin m => ⟨level, .hole⟩ := by
  simp only [bare, List.map_ofFn]
  rfl

theorem bare_ofBelow {level : Nat} (below : Fin 128 → Tree level) :
    (ofBelow below).bare = holes level := bare_ofFn below

/-- What a row that fits lacks is the difference between what the two numbers of blocks take. -/
theorem lacking_of_fits {F : Forest} {m n : Nat} (hfits : F.Fits m) (hle : m ≤ n) :
    F.lacking n + F.bare.lacking m = F.bare.lacking n := by
  induction F using induction generalizing m n with
  | nil => rfl
  | hole level F ih =>
    obtain ⟨hm, hfits⟩ := (fits_cons _ _ _).1 hfits
    have hrest := ih hfits (Nat.sub_le_sub_right hle (SectorVolume.span level))
    simp only [Tree.Fits] at hm
    simp only [bare_cons, lacking_cons, hm, Nat.zero_sub, lacking_zero] at hrest ⊢
    omega
  | data s F ih =>
    obtain ⟨hm, hfits⟩ := (fits_cons _ _ _).1 hfits
    have hrest := ih hfits (Nat.sub_le_sub_right hle (SectorVolume.span 0))
    simp only [Tree.Fits] at hm
    have hn : n ≠ 0 := by omega
    simp only [bare_cons, lacking_cons, Tree.lacking_data, Tree.lacking_hole_zero, if_neg hm,
      if_neg hn]
    omega
  | index level s below F ihb ih =>
    obtain ⟨htree, hfits⟩ := (fits_cons _ _ _).1 hfits
    obtain ⟨hm, hbelow⟩ := (Tree.fits_index s below m).1 htree
    have hrest := ih hfits (Nat.sub_le_sub_right hle (SectorVolume.span (level + 1)))
    have hfirst := ihb hbelow hle
    have hn : n ≠ 0 := by omega
    rw [bare_ofBelow] at hfirst
    simp only [bare_cons, lacking_cons, Tree.lacking_index, Tree.lacking_hole_succ, if_neg hm,
      if_neg hn]
    omega

/-- A row that fits has as many sectors as its number of data blocks takes. -/
theorem length_sectors_of_fits {F : Forest} {n : Nat} (hfits : F.Fits n) :
    F.sectors.length = F.bare.lacking n := by
  induction F using induction generalizing n with
  | nil => rfl
  | hole level F ih =>
    obtain ⟨hn, hfits⟩ := (fits_cons _ _ _).1 hfits
    simp only [Tree.Fits] at hn
    simp only [sectors_cons, Tree.sectors, List.nil_append, bare_cons, lacking_cons, hn,
      lacking_tree_zero, Nat.zero_add]
    rw [ih hfits, hn]
  | data s F ih =>
    obtain ⟨hn, hfits⟩ := (fits_cons _ _ _).1 hfits
    simp only [Tree.Fits] at hn
    simp only [sectors_cons, Tree.sectors, List.singleton_append, List.length_cons, bare_cons,
      lacking_cons, Tree.lacking_hole_zero, if_neg hn]
    rw [ih hfits, Nat.add_comm]
  | index level s below F ihb ih =>
    obtain ⟨htree, hfits⟩ := (fits_cons _ _ _).1 hfits
    obtain ⟨hn, hbelow⟩ := (Tree.fits_index s below n).1 htree
    simp only [sectors_cons, Tree.sectors_index, List.length_append, List.length_cons, bare_cons,
      lacking_cons, Tree.lacking_hole_succ, if_neg hn]
    rw [ihb hbelow, ih hfits, bare_ofBelow]
    omega

end Forest

end SectorVolume
