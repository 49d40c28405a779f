import SectorVolume.Proofs.Session.Frames
import SectorVolume.Proofs.Session.Misuse

/-!
What a denial protects a file from. As long as some handle denies writing, no write through any
handle changes the file, and neither does anything that is done to other files; only a resize
does, which does not look at the denials.
-/

namespace SectorVolume

/-- The number of children has no part in where the blocks are. -/
theorem Inode.roots_of_children (n : Inode) (children : UInt32) :
    { n with children }.roots = n.roots := rfl

namespace Session

variable {s s' s'' : Session} {r : Reference} {reserved : Nat} {x : UInt32} {step : Step}
  {a : Answer}

/-- Some handle on the file in sector `x` denies writing. -/
def Denied (s : Session) (x : UInt32) : Prop :=
  ∃ k h, s.handles.get? k = some h ∧ h.sector = x ∧ h.denies = true

/-- The step is a resize of the file in sector `x`. -/
def Resizes (s : Session) (x : UInt32) (step : Step) : Prop :=
  ∃ k h length, step = .handle k (.resize length) ∧ s.handles.get? k = some h ∧ h.sector = x

/-- The file in sector `x` has the same length, the same pointers and the same bytes in all its
blocks. -/
structure Kept (x : UInt32) (s s' : Session) : Prop where
  length : (s'.inodeAt x).length = (s.inodeAt x).length
  roots : (s'.inodeAt x).roots = (s.inodeAt x).roots
  content : ∀ t ∈ s.treeOf x, s'.engine.store.content t = s.engine.store.content t

namespace Kept

theorem refl (x : UInt32) (s : Session) : s.Kept x s := ⟨rfl, rfl, fun _ _ => rfl⟩

theorem forest_eq (h : s.Kept x s') : (s'.inodeAt x).forest s'.engine.store.content =
    (s.inodeAt x).forest s.engine.store.content := by
  rw [Inode.forest, h.roots]
  exact forest_congr fun t ht => h.content t (Forest.mem_sectors.2 (Or.inl ht))

/-- It lies in the same sectors. -/
theorem treeOf_eq (h : s.Kept x s') : s'.treeOf x = s.treeOf x :=
  congrArg Forest.sectors h.forest_eq

/-- It has the same bytes, and the same behind its end. -/
theorem hidden_eq (h : s.Kept x s') (p : Nat) : s'.hidden x p = s.hidden x p := by
  rw [hidden, hidden, Inode.byte?_congr h.forest_eq h.content]

theorem trans (h : s.Kept x s') (h' : s'.Kept x s'') : s.Kept x s'' where
  length := h'.length.trans h.length
  roots := h'.roots.trans h.roots
  content t ht := by
    rw [← h.content t ht]
    apply h'.content
    rw [h.treeOf_eq]
    exact ht

/-- Where all sectors of the file have the same bytes. -/
theorem of_spares (h : Medium.Spares x s.engine.medium s'.engine.medium) : s.Kept x s' := by
  have hself : s'.engine.store.content x = s.engine.store.content x := h x List.mem_cons_self
  have hinode : s'.inodeAt x = s.inodeAt x := congrArg Inode.ofSector hself
  exact ⟨by rw [hinode], by rw [hinode], fun t ht => h t (List.mem_cons_of_mem x ht)⟩

/-- Counting children writes the inode, but no block. -/
theorem of_put {f : File} (hn : s.engine.medium.Stores x (s.inodeAt x) f) {children : UInt32}
    (hput : s'.engine.medium = s.engine.medium.put x { s.inodeAt x with children }.toSector) :
    s.Kept x s' := by
  have hcontent : s'.engine.store.content =
      (s.engine.medium.put x { s.inodeAt x with children }.toSector).content :=
    congrArg Medium.content hput
  have hinode : s'.inodeAt x = { s.inodeAt x with children } := by
    rw [inodeAt, hcontent, Medium.content_put_self, Inode.ofSector_toSector]
  refine ⟨by rw [hinode], by rw [hinode, Inode.roots_of_children], fun t ht => ?_⟩
  rw [hcontent, Medium.content_put_of_ne]
  · rfl
  · rintro rfl
    exact hn.placed.self_notMem ht

end Kept

namespace Shows

/-- Writes give up where they find a denial. -/
theorem kept_of_write (hs : s.Shows reserved [] r) (hc' : s'.engine.store.Coherent)
    (hdenied : s.Denied x) {k offset : Nat} {data : Array UInt8} {h : Handle} (hx : h.sector = x)
    (hrun : runHandle k h (.write offset data) s = .ok a s') : s.Kept x s' := by
  obtain ⟨j, h₀, hj, hsector, hdenies⟩ := hdenied
  have hmem : h₀ ∈ r.opened := Shows.mem_opened (hs.handles ▸ hj)
  have hcount : 0 < denials r.opened h.sector := by
    refine List.countP_pos_iff.2 ⟨h₀, hmem, ?_⟩
    rw [decide_eq_true_eq]
    exact ⟨hsector.trans hx.symm, hdenies⟩
  have hcounts : s.registry.Counts r.opened r.removed := hs.counts
  rw [← hcounts.denials_entry] at hcount
  obtain ⟨written, s₁, hvolume, hrest⟩ := exists_of_bind_ok hrun
  cases hrest
  have hidle : VolumeM.Gives (h.writeAt offset data) s.registry s.engine.medium 0 s.registry
      s.engine.medium := Handle.gives_writeAt_of_idle (Or.inr (Or.inl hcount))
  have hsame := hidle.symm.trans (gives_of_volume_ok hs.coherent hc' hvolume)
  simp only [Except.ok.injEq, Prod.mk.injEq] at hsame
  refine Kept.of_spares ?_
  rw [← hsame.2]
  exact Medium.Spares.refl x _

/-- A step while writing is denied. -/
theorem kept_of_run (hs : s.Shows reserved [] r) (hc' : s'.engine.store.Coherent)
    (hadmits : r.admits step = true) (hdenied : s.Denied x) (hresize : ¬s.Resizes x step)
    (hrun : run step s = .ok a s') : s.Kept x s' := by
  obtain ⟨j, h₀, hj, rfl, -⟩ := id hdenied
  obtain ⟨-, f, hf, hn⟩ := hs.exists_file hj
  by_cases hown : ∃ k h action, step = .handle k action ∧ s.handles.get? k = some h ∧
      action.changes = true ∧ h₀.sector = h.sector
  · obtain ⟨k, h, action, rfl, hk, hchanges, hx⟩ := hown
    rw [run_handle hk] at hrun
    cases action with
    | addChild =>
      obtain ⟨children, hput⟩ := hs.exists_put_of_count hc' hk (Or.inl rfl) hrun
      rw [hx] at hn ⊢
      exact Kept.of_put hn hput
    | removeChild =>
      obtain ⟨children, hput⟩ := hs.exists_put_of_count hc' hk (Or.inr rfl) hrun
      rw [hx] at hn ⊢
      exact Kept.of_put hn hput
    | write offset data => exact hs.kept_of_write hc' hdenied hx.symm hrun
    | resize length => exact absurd ⟨k, h, length, rfl, hk, hx.symm⟩ hresize
    | _ => cases hchanges
  · refine Kept.of_spares (hs.spares_of_run hc' hadmits (by rw [hf]; rfl) ?_ hrun)
    exact fun k h action hstep hk hchanges hx => hown ⟨k, h, action, hstep, hk, hchanges, hx⟩

/-- A run of which every step finds writing denied and is no resize of the file. -/
theorem kept_of_play {later : List Step} (hs : s.Shows reserved [] r)
    (hnames : r.names = (play later s).answers.flatMap made)
    (hadmits : Reference.admitsAll later r = true) (hlast : (play later s).final = .ok s')
    (hdenied : ∀ before step after mid, later = before ++ step :: after →
      (play before s).final = .ok mid → mid.Denied x ∧ ¬mid.Resizes x step) : s.Kept x s' := by
  induction later generalizing s r with
  | nil =>
    obtain rfl := Except.ok.inj hlast
    exact Kept.refl x s
  | cons step rest ih =>
    obtain ⟨hstep, -⟩ := admits_next hnames hadmits
    cases hrun : run step s with
    | error f s₁ =>
      rw [play_cons_of_error hrun] at hlast
      cases hlast
    | ok a s₁ =>
      obtain ⟨-, r₁, -, -, hs₁, hnames₁, hadmits₁⟩ := hs.at_next hnames hadmits hrun
      obtain ⟨hnow, hresize⟩ := hdenied [] step rest s rfl rfl
      rw [play_cons_of_ok hrun] at hlast
      refine (hs.kept_of_run hs₁.coherent hstep hnow hresize hrun).trans
        (ih hs₁ hnames₁ hadmits₁ hlast ?_)
      rintro before step' after mid rfl hmid
      refine hdenied (step :: before) step' after mid rfl ?_
      rw [play_cons_of_ok hrun]
      exact hmid

/-- A resize for which there are sectors enough is granted, whoever denies writing. -/
theorem exists_resize (hs : s.Shows reserved [] r) {k length : Nat} {h : Handle}
    (hk : s.handles.get? k = some h) (hlength : length ≤ maxLength)
    (henough : totalBlocks length - totalBlocks (s.inodeAt h.sector).length.toNat ≤
      s.engine.map.space.available) :
    ∃ t, run (.handle k (.resize length)) s = .ok (.result (.ok ())) t ∧
      (t.inodeAt h.sector).length.toNat = length ∧ t.handles = s.handles := by
  obtain ⟨hk', f, hf, hn⟩ := hs.exists_file hk
  have hok : (r.resize h.sector f length).1 = .ok () := by
    rw [Reference.resize, if_neg (Nat.not_lt.2 hlength), ← hs.space, File.blocks, ← hn.length_eq,
      if_neg (Nat.not_lt.2 henough)]
  have hfollows : Follows reserved r.names (.ok (some (.result (r.resize h.sector f length).1),
      (r.resize h.sector f length).2)) (runHandle k h (.resize length) s) :=
    follows_resize hs hf length
  rw [← run_handle hk, hok] at hfollows
  obtain ⟨b, t, hrun, hanswer, ht, -⟩ := hfollows.exists_ok
  have hhandles : t.handles = s.handles := by
    rw [ht.handles, hs.handles, (Reference.keeps_resize hf length).handles]
  have hfile : (r.resize h.sector f length).2.files.get? h.sector = some (f.resize length) := by
    rw [Reference.get?_resize_of_ok hok, Function.update_self]
  obtain ⟨m, hm⟩ := ht.holds.stores h.sector _ hfile
  have hinode : t.inodeAt h.sector = m := hm.hasInode.ofSector_eq
  refine ⟨t, by rw [hrun, hanswer _ rfl], ?_, hhandles⟩
  rw [hinode]
  exact hm.length_eq

end Shows

/-- A run in which every step finds writing to a file denied, and which does not resize the file,
leaves its length, its blocks and its bytes alone, whatever is written and through whichever
handles. A resize is granted in spite of any denial, if only there are sectors enough for it. -/
theorem denials_do_not_stop_resizes {disk : RamDisk} {mapped reserved capacity : Nat}
    (hreserved : 0 < reserved) (hfit : reserved ≤ mapped) (hmapped : mapped ≤ disk.sectors.size)
    (hsectors : disk.sectors.size ≤ UInt32.size) (hcapacity : 0 < capacity) (others : Nat) :
    ∃ s₀, startOn disk mapped reserved capacity others = .ok s₀ ∧
      (∀ history later s s' x, Reference.admitsAll (history ++ later)
            (Reference.start (mapped - reserved)
              ((play (history ++ later) s₀).answers.flatMap made)) = true →
          (play history s₀).final = .ok s → (play later s).final = .ok s' →
          (∀ before step after mid, later = before ++ step :: after →
            (play before s).final = .ok mid → mid.Denied x ∧ ¬mid.Resizes x step) →
        s.Kept x s' ∧ s'.treeOf x = s.treeOf x ∧ ∀ p, s'.hidden x p = s.hidden x p) ∧
      ∀ history s k h length, Reference.admitsAll history (Reference.start (mapped - reserved)
            ((play history s₀).answers.flatMap made)) = true →
          (play history s₀).final = .ok s → s.handles.get? k = some h → length ≤ maxLength →
          totalBlocks length - totalBlocks (s.inodeAt h.sector).length.toNat ≤
            s.engine.map.space.available →
        ∃ s', run (.handle k (.resize length)) s = .ok (.result (.ok ())) s' ∧
          (s'.inodeAt h.sector).length.toNat = length ∧ s'.handles = s.handles := by
  obtain ⟨s₀, hstart, hshows⟩ := exists_start hreserved hfit hmapped hsectors hcapacity others
  refine ⟨s₀, hstart, fun history later s s' x hadmits hmid hlast hdenied => ?_,
    fun history s k h length hadmits hlast hk hlength henough => ?_⟩
  · obtain ⟨r, hs, hnames, hadmits'⟩ := (hshows _).at_moment rfl hadmits hmid
    have hkept := hs.kept_of_play hnames hadmits' hlast hdenied
    exact ⟨hkept, hkept.treeOf_eq, hkept.hidden_eq⟩
  · obtain ⟨r, hs⟩ := (hshows _).at_end rfl hadmits hlast
    exact hs.exists_resize hk hlength henough

/-- A file of three bytes with a handle that denies writing and one that does not. -/
def guardedRun : List Step := deniedRun ++ [.open 1 1]

theorem made_guardedRun {s₀ : Session} (hstart : startOn usedDisk 8 1 1 0 = .ok s₀) :
    (play (guardedRun ++ [.handle 1 (.write 0 #[7])]) s₀).answers.flatMap made = [1] ∧
      (play guardedRun s₀).answers.flatMap made = [1] := by
  have heval : (startOn usedDisk 8 1 1 0).toOption.map (fun s₀ =>
      ((play (guardedRun ++ [.handle 1 (.write 0 #[7])]) s₀).answers.flatMap made,
        (play guardedRun s₀).answers.flatMap made)) = some ([1], [1]) := by
    decide +kernel
  exact Prod.mk.inj (eq_of_usedDisk hstart heval)

theorem exists_guarded {s₀ : Session} (hstart : startOn usedDisk 8 1 1 0 = .ok s₀) :
    ∃ s s', (play guardedRun s₀).final = .ok s ∧
      (play [.handle 1 (.write 0 #[7])] s).final = .ok s' ∧ s.handles.get? 0 = some ⟨1, true⟩ ∧
      s.handles.get? 1 = some ⟨1, false⟩ ∧ (s.inodeAt 1).length.toNat = 3 := by
  have heval : (startOn usedDisk 8 1 1 0).toOption.bind (fun s₀ =>
      (play guardedRun s₀).final.toOption.map fun s =>
        ((play [.handle 1 (.write 0 #[7])] s).final.isOk, s.handles.get? 0, s.handles.get? 1,
          (s.inodeAt 1).length.toNat)) =
      some (true, some ⟨1, true⟩, some ⟨1, false⟩, 3) := by
    decide +kernel
  obtain ⟨s, hlast, hs⟩ := exists_end_of_usedDisk hstart heval
  simp only [Prod.mk.injEq] at hs
  obtain ⟨hwritten, hdenies, hk, hlength⟩ := hs
  cases hwrite : (play [.handle 1 (.write 0 #[7])] s).final with
  | error f => simp [hwrite, Except.isOk, Except.toBool] at hwritten
  | ok s' => exact ⟨s, s', hlast, hwrite, hdenies, hk, hlength⟩

/-- A write through the other handle does nothing, but through the same handle the file is cut. -/
theorem guarded_file_is_cut :
    ∃ s₀ s s' t, startOn usedDisk 8 1 1 0 = .ok s₀ ∧ (play guardedRun s₀).final = .ok s ∧
      (play [.handle 1 (.write 0 #[7])] s).final = .ok s' ∧ s.Kept 1 s' ∧
      run (.handle 1 (.resize 0)) s = .ok (.result (.ok ())) t ∧
      (s.inodeAt 1).length.toNat = 3 ∧ (t.inodeAt 1).length.toNat = 0 ∧ t.Denied 1 := by
  have hsize : usedDisk.sectors.size = 8 := Array.size_replicate
  obtain ⟨s₀, hstart, hkept, hresize⟩ := denials_do_not_stop_resizes (by decide : 0 < 1)
    (by decide : 1 ≤ 8) (Nat.le_of_eq hsize.symm) (by rw [hsize]; decide) (by decide : 0 < 1) 0
  obtain ⟨hmade, hmade'⟩ := made_guardedRun hstart
  obtain ⟨s, s', hlast, hwrite, hdenies, hk, hlength⟩ := exists_guarded hstart
  obtain ⟨hsame, -⟩ := hkept guardedRun [.handle 1 (.write 0 #[7])] s s' 1 (by
      rw [hmade]
      decide +kernel) hlast hwrite (by
    rintro before step after mid hsplit hmid
    obtain ⟨rfl, rfl, rfl⟩ : before = [] ∧ step = .handle 1 (.write 0 #[7]) ∧ after = [] := by
      cases before with
      | nil =>
        obtain ⟨rfl, rfl⟩ := List.cons.inj hsplit
        exact ⟨rfl, rfl, rfl⟩
      | cons b before => simp at hsplit
    obtain rfl := Except.ok.inj hmid
    refine ⟨⟨0, ⟨1, true⟩, hdenies, rfl, rfl⟩, ?_⟩
    rintro ⟨k, h, length, heq, -⟩
    cases heq)
  obtain ⟨t, hrun, hcut, hhandles⟩ := hresize guardedRun s 1 ⟨1, false⟩ 0 (by
    rw [hmade']
    decide +kernel) hlast hk (Nat.zero_le _) (by
    rw [show totalBlocks 0 = 0 by decide, Nat.zero_sub]
    exact Nat.zero_le _)
  exact ⟨s₀, s, s', t, hstart, hlast, hwrite, hsame, hrun, hlength, hcut, 0, ⟨1, true⟩,
    hhandles ▸ hdenies, rfl, rfl⟩

end Session

end SectorVolume
