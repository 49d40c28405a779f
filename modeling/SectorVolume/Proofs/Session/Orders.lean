import SectorVolume.Proofs.Session.LastClose

/-!
Closing all handles that there are, one after the other, in an order of the user's choice. The
order cannot be told afterwards from anything but the order in which the sectors of removed files
were returned: a handle that goes changes no byte, and the last one on a removed file returns
sectors that belong to no other file. So what is left are the files that are not removed, whoever
was closed first.
-/

namespace SectorVolume

namespace FreeMap

variable {m m' m'' : FreeMap} {xs ys : List UInt32}

theorem used?_after_takeBackAll (hused : ∀ t ∈ xs, m.bitmap.used? t.toNat = some true)
    (t : UInt32) :
    (m.takeBackAll xs).bitmap.used? t.toNat =
      if t ∈ xs then some false else m.bitmap.used? t.toNat := by
  have hsome : ∀ s ∈ xs, (m.bitmap.used? s.toNat).isSome := fun s hs => by
    rw [hused s hs]
    rfl
  simp only [used?_takeBackAll hsome, List.mem_map, UInt32.toNat_inj, exists_eq_right]

theorem bitmap_takeBackAll_of_perm (hsome : ∀ t ∈ xs, (m.bitmap.used? t.toNat).isSome)
    (hperm : xs.Perm ys) : (m.takeBackAll xs).bitmap = (m.takeBackAll ys).bitmap := by
  apply Bitmap.eq_of_used?
  · rw [capacity_takeBackAll, capacity_takeBackAll]
  · intro i
    have hsome' : ∀ t ∈ ys, (m.bitmap.used? t.toNat).isSome :=
      fun t ht => hsome t (hperm.mem_iff.2 ht)
    rw [used?_takeBackAll hsome, used?_takeBackAll hsome']
    simp only [(hperm.map UInt32.toNat).mem_iff]

theorem ledger_takeBackAll_perm (hperm : xs.Perm ys) :
    (m.takeBackAll xs).ledger.Perm (m.takeBackAll ys).ledger := by
  rw [ledger_takeBackAll, ledger_takeBackAll, ← List.map_reverse, ← List.map_reverse]
  have hreverse := (List.reverse_perm xs).trans (hperm.trans (List.reverse_perm ys).symm)
  exact (hreverse.map _).append_right m.ledger

/-- Sectors in use were returned, each once. -/
def Returns (m m' : FreeMap) : Prop :=
  ∃ returned, returned.Nodup ∧ (∀ t ∈ returned, t.toNat < m.bitmap.capacity ∧
    m.bitmap.used? t.toNat = some true) ∧ m' = m.takeBackAll returned

namespace Returns

theorem refl (m : FreeMap) : m.Returns m := ⟨[], List.nodup_nil, by simp, rfl⟩

theorem trans (h : m.Returns m') (h' : m'.Returns m'') : m.Returns m'' := by
  obtain ⟨xs, hxs, hused, rfl⟩ := h
  obtain ⟨ys, hys, hused', rfl⟩ := h'
  -- what is still in use after the first ones were returned is none of them
  have hlater : ∀ t ∈ ys, t ∉ xs ∧ t.toNat < m.bitmap.capacity ∧
      m.bitmap.used? t.toNat = some true := by
    intro t ht
    obtain ⟨hlt, hbit⟩ := hused' t ht
    rw [capacity_takeBackAll] at hlt
    rw [used?_after_takeBackAll fun t ht => (hused t ht).2] at hbit
    split at hbit
    · simp at hbit
    · rename_i hnot
      exact ⟨hnot, hlt, hbit⟩
  refine ⟨xs ++ ys, ?_, ?_, (takeBackAll_append m xs ys).symm⟩
  · exact List.nodup_append'.2 ⟨hxs, hys, fun t htx hty => (hlater t hty).1 htx⟩
  · intro t ht
    rcases List.mem_append.1 ht with ht | ht
    · exact hused t ht
    · exact (hlater t ht).2

theorem capacity_eq (h : m.Returns m') : m'.bitmap.capacity = m.bitmap.capacity := by
  obtain ⟨returned, -, -, rfl⟩ := h
  exact capacity_takeBackAll returned m

/-- Where the same sectors are left in use, the same ones were returned. -/
theorem alike (h : m.Returns m') (h' : m.Returns m'')
    (hsame : ∀ t : UInt32, t.toNat < m.bitmap.capacity →
      (m'.bitmap.used? t.toNat = some true ↔ m''.bitmap.used? t.toNat = some true)) :
    m'.bitmap = m''.bitmap ∧ m'.ledger.Perm m''.ledger := by
  obtain ⟨xs, hxs, hused, rfl⟩ := h
  obtain ⟨ys, hys, hused', rfl⟩ := h'
  have hbits := fun t ht => (hused t ht).2
  have hbits' := fun t ht => (hused' t ht).2
  have hmem : ∀ t, t ∈ xs ↔ t ∈ ys := by
    intro t
    by_cases hbit : t.toNat < m.bitmap.capacity ∧ m.bitmap.used? t.toNat = some true
    · have hleft := hsame t hbit.1
      rw [used?_after_takeBackAll hbits, used?_after_takeBackAll hbits', hbit.2] at hleft
      by_cases htx : t ∈ xs <;> by_cases hty : t ∈ ys <;> simp [htx, hty] at hleft ⊢
    · exact ⟨fun ht => absurd (hused t ht) hbit, fun ht => absurd (hused' t ht) hbit⟩
  have hperm : xs.Perm ys := (List.perm_ext_iff_of_nodup hxs hys).2 hmem
  refine ⟨bitmap_takeBackAll_of_perm (fun t ht => ?_) hperm, ledger_takeBackAll_perm hperm⟩
  rw [hbits t ht]
  rfl

end Returns

end FreeMap

namespace Reference

variable {r r' r'' : Reference}

/-- Some of the files that are marked have gone, and all others are as they were. -/
def Thins (r r' : Reference) : Prop :=
  ∀ x, r'.files.get? x = r.files.get? x ∨ r.removed x = true ∧ r'.files.get? x = none

namespace Thins

theorem refl (r : Reference) : r.Thins r := fun _ => Or.inl rfl

theorem trans (h : r.Thins r') (h' : r'.Thins r'') : r.Thins r'' := by
  intro x
  rcases h x with hsame | ⟨hmarked, hgone⟩
  · have hremoved : r'.removed x = r.removed x := by rw [removed, removed, hsame]
    rw [← hsame, ← hremoved]
    exact h' x
  · refine Or.inr ⟨hmarked, ?_⟩
    rcases h' x with hsame' | ⟨-, hgone'⟩
    · exact hsame'.trans hgone
    · exact hgone'

/-- Once no file is marked any more, those are left that were not marked before. -/
theorem isSome_iff (h : r.Thins r') (hnone : ∀ x, r'.removed x = false) (x : UInt32) :
    (r'.files.get? x).isSome ↔ (r.files.get? x).isSome ∧ r.removed x = false := by
  rcases h x with hsame | ⟨hmarked, hgone⟩
  · have hremoved : r.removed x = r'.removed x := by rw [removed, removed, hsame]
    rw [hsame, hremoved, hnone x, and_iff_left rfl]
  · simp [hgone, hmarked]

end Thins

theorem thins_reclaim (r : Reference) (x : UInt32) : r.Thins (r.reclaim x) := by
  intro y
  by_cases hyx : y = x
  · subst hyx
    cases hmark : r.removed y with
    | false => exact Or.inl (by rw [reclaim_of_kept hmark])
    | true =>
      rw [reclaim]
      split
      · exact Or.inl rfl
      · split
        · refine Or.inr ⟨rfl, ?_⟩
          rw [Table.get?_erase, if_pos rfl]
        · exact Or.inl rfl
  · exact Or.inl (get?_reclaim_of_ne r hyx)

theorem thins_closeHandle (r : Reference) (k : Nat) (h : Handle) : r.Thins (r.closeHandle k h) :=
  thins_reclaim { r with handles := r.handles.erase k } h.sector

end Reference

namespace Session

variable {s s' s'' t₁ t₂ : Session} {r : Reference} {reserved k : Nat} {h : Handle}

/-- The sectors in use are told by the bytes on the volume and by which files are live. -/
theorem Partition.used_iff_of_content {live : UInt32 → Prop} (h₁ : t₁.Partition reserved live)
    (h₂ : t₂.Partition reserved live)
    (hcontent : t₁.engine.store.content = t₂.engine.store.content) {i : Nat}
    (hi₁ : i < t₁.engine.map.bitmap.capacity) (hi₂ : i < t₂.engine.map.bitmap.capacity) :
    t₁.engine.map.bitmap.used? i = some true ↔ t₂.engine.map.bitmap.used? i = some true := by
  have htree : ∀ x, t₁.treeOf x = t₂.treeOf x := fun x => by
    rw [treeOf, treeOf, inodeAt, inodeAt, hcontent]
  rw [h₁.used_iff i hi₁, h₂.used_iff i hi₂]
  simp only [htree]

/-- The steps that close the handles with the given numbers. -/
def closesOf (ks : List Nat) : List Step := ks.map fun k => .handle k .close

/-- No byte changed, and sectors in use were returned. -/
structure Sheds (s s' : Session) : Prop where
  size : s'.engine.store.size = s.engine.store.size
  content : s'.engine.store.content = s.engine.store.content
  map : s.engine.map.Returns s'.engine.map

theorem Sheds.refl (s : Session) : s.Sheds s := ⟨rfl, rfl, FreeMap.Returns.refl _⟩

theorem Sheds.trans (h : s.Sheds s') (h' : s'.Sheds s'') : s.Sheds s'' :=
  ⟨h'.size.trans h.size, h'.content.trans h.content, h.map.trans h'.map⟩

namespace Shows

/-- A handle is closed: the sectors that go are those of its file, all of them in use. -/
theorem exists_close (hs : s.Shows reserved [] r) (hk : s.handles.get? k = some h) :
    ∃ s', run (.handle k .close) s = .ok .done s' ∧ s'.Shows reserved [] (r.closeHandle k h) ∧
      s.Sheds s' := by
  have hk' : r.handles.get? k = some h := hs.handles ▸ hk
  obtain ⟨s', hclose, hs'⟩ := hs.closeHandle hk'
  have hrun : run (.handle k .close) s = .ok .done s' := by
    rw [run_handle hk, runHandle, bind_of_ok hclose]
    rfl
  have hadmits : r.admits (.handle k .close) = true := rfl
  have hdrops : s.Drops h (.handle k .close) := .close hk
  refine ⟨s', hrun, hs', size_of_run hadmits hrun,
    hs.content_of_drop hadmits hdrops hrun hs'.coherent, ?_⟩
  by_cases hstays : s'.IsOpen h.sector ∨ r.removed h.sector = false
  · rw [hs.map_of_drop hadmits hdrops hrun hstays]
    exact FreeMap.Returns.refl _
  · obtain ⟨hlast, hmarked⟩ := not_or.1 hstays
    have hgone := hs.reclaimed_of_drop hadmits hdrops hrun hlast (by simpa using hmarked)
    obtain ⟨returned, hperm, hmap⟩ := hgone.returned
    have hlive := hs.live h (mem_opened hk')
    refine ⟨returned, hperm.nodup_iff.2 hgone.nodup, fun t ht => ?_, hmap⟩
    have howned := hperm.mem_iff.1 ht
    exact ⟨hs.partition.below_capacity h.sector hlive t howned, hs.holds.used_owned hlive howned⟩

/-- A file that is marked is open. -/
theorem not_removed (hs : s.Shows reserved [] r) (hclosed : s.handles.entries = []) (x : UInt32) :
    r.removed x = false := by
  by_contra hmarked
  refine hs.removed_opened x (by simpa using hmarked) ?_
  rw [hs.opened_eq_nil hclosed]
  rfl

/-- The disk is up to date when the volume was unmounted, and shows the bytes from before. -/
theorem exists_finish_disk (hs : s.Shows reserved [] r) : ∃ a u, finish s = .ok a u ∧
    u.engine.store.size = s.engine.store.size ∧
    u.engine.store.content = s.engine.store.content ∧
    ∀ x : UInt32, x.toNat < u.engine.store.size →
      u.engine.store.disk.device.sectors[x.toNat]? = some (u.engine.store.content x) := by
  obtain ⟨u, hunmount, hu, -, -, hdisk⟩ := exists_unmount hs
  obtain ⟨a, hsummary, -⟩ := run_summary u
  refine ⟨a, u, ?_, (Steady.unmount.confined hunmount).size,
    Still.unmount.content_eq hs.coherent hu.coherent hunmount, hdisk⟩
  rw [finish, bind_of_ok hunmount]
  exact hsummary

end Shows

/-- No handle is left in `t`, and nothing but the removed files of `s` has gone. -/
structure Emptied (reserved : Nat) (r : Reference) (s t : Session) : Prop extends s.Sheds t where
  closed : t.handles.entries = []
  shows : ∃ r', t.Shows reserved [] r' ∧ r.Thins r'

/-- All handles are closed, in any order. -/
theorem Shows.exists_emptied {ks : List Nat} (hs : s.Shows reserved [] r)
    (hperm : ks.Perm (s.handles.entries.map Prod.fst)) :
    ∃ t, (play (closesOf ks) s).final = .ok t ∧ Emptied reserved r s t := by
  induction ks generalizing s r with
  | nil =>
    have hnone : s.handles.entries = [] := List.map_eq_nil_iff.1 hperm.nil_eq.symm
    exact ⟨s, rfl, Sheds.refl s, hnone, r, hs, Reference.Thins.refl r⟩
  | cons k ks ih =>
    have hsorted : s.handles.Sorted := hs.handles ▸ hs.sorted
    obtain ⟨⟨k, h⟩, hmem, rfl⟩ := List.mem_map.1 (hperm.mem_iff.1 List.mem_cons_self)
    have hk := hsorted.get?_of_mem hmem
    obtain ⟨s₁, hrun, hs₁, hsheds⟩ := hs.exists_close hk
    have hhandles : s₁.handles = s.handles.erase k := by
      rw [hs₁.handles, Reference.closeHandle, Reference.handles_reclaim, hs.handles]
    have hrest : ks.Perm ((s.handles.erase k).entries.map Prod.fst) := by
      have hkeys := hperm.trans ((hsorted.perm_erase hk).map Prod.fst)
      rwa [List.map_cons, List.perm_cons] at hkeys
    obtain ⟨t, hplay, ht⟩ := ih hs₁ (by rwa [hhandles])
    obtain ⟨r', hshows, hthins⟩ := ht.shows
    refine ⟨t, ?_, hsheds.trans ht.toSheds, ht.closed, r', hshows,
      (Reference.thins_closeHandle r k h).trans hthins⟩
    rw [closesOf, List.map_cons, play_cons_of_ok hrun]
    exact hplay

namespace Emptied

theorem registry_eq_empty (h : Emptied reserved r s t₁) : t₁.registry = Table.empty := by
  obtain ⟨r', hshows, -⟩ := h.shows
  exact hshows.registry_eq_empty h.closed

/-- What is left are the files that were not marked. -/
theorem partition (h : Emptied reserved r s t₁) :
    t₁.Partition reserved fun x => (r.files.get? x).isSome ∧ r.removed x = false := by
  obtain ⟨r', hshows, hthins⟩ := h.shows
  have hlive := funext fun x => propext (hthins.isSome_iff (hshows.not_removed h.closed) x)
  rw [← hlive]
  exact hshows.partition

variable (h₁ : Emptied reserved r s t₁) (h₂ : Emptied reserved r s t₂)

include h₁ h₂

theorem maps_alike : t₁.engine.map.bitmap = t₂.engine.map.bitmap ∧
    t₁.engine.map.ledger.Perm t₂.engine.map.ledger := by
  have hcontent := h₁.content.trans h₂.content.symm
  exact h₁.map.alike h₂.map fun x hx => h₁.partition.used_iff_of_content h₂.partition hcontent
    (h₁.map.capacity_eq ▸ hx) (h₂.map.capacity_eq ▸ hx)

theorem finish_alike (hsmall : s.engine.store.size ≤ UInt32.size) :
    ∃ a₁ u₁ a₂ u₂, finish t₁ = .ok a₁ u₁ ∧ finish t₂ = .ok a₂ u₂ ∧
      u₁.engine.store.disk.device = u₂.engine.store.disk.device := by
  obtain ⟨r₁, hs₁, -⟩ := h₁.shows
  obtain ⟨r₂, hs₂, -⟩ := h₂.shows
  obtain ⟨a₁, u₁, hfinish₁, hsize₁, hcontent₁, hdisk₁⟩ := hs₁.exists_finish_disk
  obtain ⟨a₂, u₂, hfinish₂, hsize₂, hcontent₂, hdisk₂⟩ := hs₂.exists_finish_disk
  have hsize₁' := hsize₁.trans h₁.size
  have hsize₂' := hsize₂.trans h₂.size
  have hcontent₁' := hcontent₁.trans h₁.content
  have hcontent₂' := hcontent₂.trans h₂.content
  exact ⟨a₁, u₁, a₂, u₂, hfinish₁, hfinish₂, Cached.device_eq_of_content (hsize₁' ▸ hsmall)
    (hsize₁'.trans hsize₂'.symm) (hcontent₁'.trans hcontent₂'.symm) hdisk₁ hdisk₂⟩

end Emptied

/-- After any run of steps on files all handles can be closed in any order, and no two orders can
be told apart: no handle is counted any more, the same sectors are in use and every sector has the
bytes that it had, so the same disk is left behind. The sectors in use are those of the live files
that were not marked. The free map was asked for the same things, in another order. -/
theorem closing_orders_agree {disk : RamDisk} {mapped reserved capacity : Nat}
    (hreserved : 0 < reserved) (hfit : reserved ≤ mapped) (hmapped : mapped ≤ disk.sectors.size)
    (hsectors : disk.sectors.size ≤ UInt32.size) (hcapacity : 0 < capacity) (others : Nat) :
    ∃ s₀, startOn disk mapped reserved capacity others = .ok s₀ ∧
      ∀ history s, Reference.admitsAll history (Reference.start (mapped - reserved)
            ((play history s₀).answers.flatMap made)) = true →
          (play history s₀).final = .ok s →
        ∃ answers r, Reference.play history (Reference.start (mapped - reserved)
            ((play history s₀).answers.flatMap made)) = some (answers, .ok r) ∧
          ∀ ks₁ ks₂, ks₁.Perm (s.handles.entries.map Prod.fst) →
            ks₂.Perm (s.handles.entries.map Prod.fst) →
          ∃ t₁ t₂, (play (closesOf ks₁) s).final = .ok t₁ ∧
          (play (closesOf ks₂) s).final = .ok t₂ ∧
            t₁.registry = Table.empty ∧ t₂.registry = Table.empty ∧
            t₁.engine.map.bitmap = t₂.engine.map.bitmap ∧
            (t₁.Partition reserved fun x => (r.files.get? x).isSome ∧ r.removed x = false) ∧
            t₁.engine.map.ledger.Perm t₂.engine.map.ledger ∧
            t₁.engine.store.content = s.engine.store.content ∧
            t₂.engine.store.content = s.engine.store.content ∧
            ∃ a₁ u₁ a₂ u₂, finish t₁ = .ok a₁ u₁ ∧ finish t₂ = .ok a₂ u₂ ∧
              u₁.engine.store.disk.device = u₂.engine.store.disk.device := by
  obtain ⟨s₀, hstart, hshows⟩ := exists_start hreserved hfit hmapped hsectors hcapacity others
  refine ⟨s₀, hstart, fun history s hadmits hlast => ?_⟩
  have hsize : s.engine.store.size = disk.sectors.size := by
    rw [size_of_play (hshows _) rfl hadmits hlast]
    obtain ⟨map, -, rfl⟩ := startOn_eq_ok hcapacity hstart
    rfl
  have hsmall : s.engine.store.size ≤ UInt32.size := hsize ▸ hsectors
  obtain ⟨answers, final, hreference, -, hends⟩ := follows_play history (hshows _) rfl hadmits
  rw [hlast] at hends
  cases final with
  | error f => exact False.elim hends
  | ok r =>
    have hs : s.Shows reserved [] r := hends
    refine ⟨answers, r, hreference, fun ks₁ ks₂ hperm₁ hperm₂ => ?_⟩
    obtain ⟨t₁, hplay₁, ht₁⟩ := hs.exists_emptied hperm₁
    obtain ⟨t₂, hplay₂, ht₂⟩ := hs.exists_emptied hperm₂
    obtain ⟨hbits, hrequests⟩ := ht₁.maps_alike ht₂
    exact ⟨t₁, t₂, hplay₁, hplay₂, ht₁.registry_eq_empty, ht₂.registry_eq_empty, hbits,
      ht₁.partition, hrequests, ht₁.content, ht₂.content, ht₁.finish_alike ht₂ hsmall⟩

/-- Two removed files, one of them with two handles on it, the other with a handle that denies
writing. -/
def twiceRemoved : List Step :=
  writtenRun ++ [.handle 0 (.reopen 1), .handle 0 .remove, .make 600 true, .open 2 3,
    .handle 2 .deny, .handle 2 .remove]

theorem made_twiceRemoved {s₀ : Session} (hstart : startOn usedDisk 8 1 1 0 = .ok s₀) :
    (play twiceRemoved s₀).answers.flatMap made = [1, 3] := by
  have heval : (startOn usedDisk 8 1 1 0).toOption.map (fun s₀ =>
      (play twiceRemoved s₀).answers.flatMap made) = some [1, 3] := by
    decide +kernel
  exact eq_of_usedDisk hstart heval

theorem exists_twiceRemoved {s₀ : Session} (hstart : startOn usedDisk 8 1 1 0 = .ok s₀) :
    ∃ s, (play twiceRemoved s₀).final = .ok s ∧ s.handles.entries.map Prod.fst = [0, 1, 2] ∧
      s.engine.map.bitmap.freeCount = 2 := by
  have heval : (startOn usedDisk 8 1 1 0).toOption.bind (fun s₀ =>
      (play twiceRemoved s₀).final.toOption.map fun s =>
        (s.handles.entries.map Prod.fst, s.engine.map.bitmap.freeCount)) =
          some ([0, 1, 2], 2) := by
    decide +kernel
  obtain ⟨s, hlast, hs⟩ := exists_end_of_usedDisk hstart heval
  exact ⟨s, hlast, Prod.mk.inj hs⟩

/-- In one order the first file goes before the second, in the other order after it. -/
theorem twiceRemoved_goes_in_two_orders :
    ∃ s₀ s t₁ t₂, startOn usedDisk 8 1 1 0 = .ok s₀ ∧ (play twiceRemoved s₀).final = .ok s ∧
      s.engine.map.bitmap.freeCount = 2 ∧ (play (closesOf [0, 1, 2]) s).final = .ok t₁ ∧
      (play (closesOf [2, 1, 0]) s).final = .ok t₂ ∧ t₁.registry = Table.empty ∧
      t₁.engine.map.bitmap = t₂.engine.map.bitmap ∧
      t₁.engine.store.content = t₂.engine.store.content := by
  have hsize : usedDisk.sectors.size = 8 := Array.size_replicate
  obtain ⟨s₀, hstart, horders⟩ := closing_orders_agree (by decide : 0 < 1) (by decide : 1 ≤ 8)
    (Nat.le_of_eq hsize.symm) (by rw [hsize]; decide) (by decide : 0 < 1) 0
  obtain ⟨s, hlast, hkeys, hfree⟩ := exists_twiceRemoved hstart
  obtain ⟨answers, r, -, hall⟩ := horders twiceRemoved s (by
    rw [made_twiceRemoved hstart]
    decide +kernel) hlast
  obtain ⟨t₁, t₂, hplay₁, hplay₂, hregistry, -, hbits, -, -, hcontent₁, hcontent₂, -⟩ :=
    hall [0, 1, 2] [2, 1, 0] (by rw [hkeys]) (by rw [hkeys]; decide)
  exact ⟨s₀, s, t₁, t₂, hstart, hlast, hfree, hplay₁, hplay₂, hregistry, hbits,
    hcontent₁.trans hcontent₂.symm⟩

end Session

end SectorVolume
