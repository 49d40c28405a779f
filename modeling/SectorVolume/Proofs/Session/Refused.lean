import SectorVolume.Proofs.Resize.Outcome
import SectorVolume.Proofs.Session.Steps
import SectorVolume.Proofs.Volume.Lifetimes

/-!
A resize that is refused changes nothing that is in use: not the inode in memory, not a byte of a
sector in use, not the set of sectors in use. So a write that would have to grow the file writes
nothing, and a file that cannot be made as long as asked for is left there empty.
-/

namespace SectorVolume

/-- The second engine has the same sectors in use as the first, with the same bytes, and between
the two as many sectors were returned as were handed out. -/
structure Engine.Restored (e e' : Engine RamDisk) : Prop where
  content : ∀ s : UInt32, e.map.bitmap.used? s.toNat = some true →
    e'.store.content s = e.store.content s
  used : ∀ i, e'.map.bitmap.used? i = e.map.bitmap.used? i
  balanced : ∃ k, e'.map.allocs = e.map.allocs + k ∧ e'.map.releases = e.map.releases + k

namespace Inode

variable {d d' : Medium} {n : Inode} {sector : UInt32}

theorem Undone.balanced (h : Undone d d') :
    d'.map.allocs = d.map.allocs + d.map.supply.length ∧
      d'.map.releases = d.map.releases + d.map.supply.length := by
  rw [h.map, FreeMap.allocs_takeBackAll, FreeMap.releases_takeBackAll, FreeMap.allocs_refuse,
    FreeMap.releases_refuse, FreeMap.allocs_grantAll, FreeMap.releases_grantAll,
    List.length_reverse]
  exact ⟨rfl, rfl⟩

/-- A refused resize leaves the medium as it is, or as an undone walk does. -/
theorem eval_resize (hplaced : n.Placed sector d) (length : Nat) :
    ∃ r d', (n.resize sector length).eval d = .ok (r, d') ∧
      ∀ refusal, r = .error refusal → d' = d ∨ Undone d d' := by
  by_cases hlength : length ≤ maxLength
  · rcases Nat.lt_or_ge d.map.supply.length
      ((n.forest d.content).lacking (dataBlocks length)) with hfew | henough
    · obtain ⟨d', heval, hundone⟩ := eval_resize_of_lacking hplaced hlength hfew
      exact ⟨_, d', heval, fun _ _ => Or.inr hundone⟩
    · obtain ⟨m, d', heval, _⟩ := eval_resize_of_supply hplaced hlength
        (List.take_append_drop _ d.map.supply).symm (List.length_take_of_le henough)
      exact ⟨_, d', heval, fun _ hr => absurd hr (by simp)⟩
  · exact ⟨_, d, eval_resize_of_tooLarge (Nat.lt_of_not_le hlength), fun _ _ => Or.inl rfl⟩

end Inode

/-- What a refused resize leaves has the same sectors in use, with the same bytes. -/
theorem Inode.kept_of_undone {d d' : Medium} (hwithin : d.map.bitmap.Within d.size)
    (h : d' = d ∨ Undone d d') : d'.map.bitmap = d.map.bitmap ∧
      ∀ t : UInt32, d.map.bitmap.used? t.toNat = some true → d'.content t = d.content t := by
  rcases h with rfl | hundone
  · exact ⟨rfl, fun _ _ => rfl⟩
  · exact ⟨hundone.bitmap hwithin, fun t ht => hundone.kept t (FreeMap.notMem_supply hwithin ht)⟩

theorem Engine.restored_of_undone {e e' : Engine RamDisk}
    (hwithin : e.map.bitmap.Within e.store.size)
    (h : e'.medium = e.medium ∨ Inode.Undone e.medium e'.medium) : Engine.Restored e e' := by
  obtain ⟨hbitmap, hkept⟩ := Inode.kept_of_undone hwithin h
  refine ⟨hkept, fun i => ?_, ?_⟩
  · have hsame : e'.map.bitmap = e.map.bitmap := hbitmap
    rw [hsame]
  · rcases h with hsame | hundone
    · have hmap : e'.map = e.map := congrArg Medium.map hsame
      exact ⟨0, by rw [hmap]; exact ⟨rfl, rfl⟩⟩
    · exact ⟨_, hundone.balanced⟩

namespace Session

section Refused

variable {s : Session} {n : Inode}

/-- The inode in memory and the volume after a refused resize. -/
theorem resize_restores (hcoherent : s.engine.store.Coherent) {sector : UInt32}
    (hplaced : n.Placed sector s.engine.medium) {k : Nat} (hk : s.held.get? k = some n)
    (length : Nat) : ∃ r s', run (.inode k (.resize sector length)) s = .ok (.result r) s' ∧
      ∀ refusal, r = .error refusal →
        s' = { s with engine := s'.engine } ∧ s.engine.Restored s'.engine := by
  obtain ⟨r, d', heval, hrefused⟩ := Inode.eval_resize hplaced length
  obtain ⟨e, hscript, _, rfl⟩ := script_of_eval_ok hcoherent heval
  rw [run_inode hk]
  change ∃ r s', (script (n.resize sector length) >>= _) s = _ ∧ _
  rw [bind_of_ok hscript]
  cases r with
  | error refusal =>
    refine ⟨_, _, rfl, fun _ _ => ⟨rfl, ?_⟩⟩
    exact Engine.restored_of_undone hplaced.ready.within (hrefused refusal rfl)
  | ok m => exact ⟨_, _, rfl, fun _ hr => absurd hr (by simp)⟩

/-- A write for which the file cannot grow. -/
theorem write_restores (hcoherent : s.engine.store.Coherent) {h : Handle}
    (hplaced : n.Placed h.sector s.engine.medium)
    (hinode : s.engine.medium.HasInode h.sector n) {k : Nat} (hk : s.handles.get? k = some h)
    {offset : Nat} {data : Array UInt8} (hgrows : n.length.toNat < offset + data.size)
    {refusal : Refusal}
    (hanswer : s.engine.answer (n.resize h.sector (offset + data.size)) = .ok (.error refusal)) :
    ∃ s', run (.handle k (.write offset data)) s = .ok (.number 0) s' ∧
      s' = { s with engine := s'.engine } ∧ s.engine.Restored s'.engine := by
  obtain ⟨r, d', heval, hrefused⟩ := Inode.eval_resize hplaced (offset + data.size)
  rw [Engine.answer_of_eval_ok hcoherent heval] at hanswer
  obtain rfl := Except.ok.inj hanswer
  obtain ⟨d'', hgives, hd''⟩ : ∃ d'', VolumeM.Gives (h.writeAt offset data) s.registry
      s.engine.medium 0 s.registry d'' ∧
        (d'' = s.engine.medium ∨ Inode.Undone s.engine.medium d'') := by
    by_cases hidle : data.isEmpty = true ∨ 0 < (s.registry.entry h.sector).denials ∨
        wordLimit ≤ offset + data.size
    · exact ⟨_, Handle.gives_writeAt_of_idle hidle, Or.inl rfl⟩
    · simp only [not_or, Bool.not_eq_true, Nat.not_lt, Nat.not_le, Nat.le_zero] at hidle
      rw [← Handle.eval_grown_of_lt hinode hgrows] at heval
      exact ⟨d', Handle.gives_writeAt_of_grown hidle.1 hidle.2.1 hidle.2.2 heval rfl,
        hrefused refusal rfl⟩
  obtain ⟨e, hvolume, _, rfl⟩ := volume_of_gives hcoherent hgives
  refine ⟨{ s with engine := e }, ?_, rfl,
    Engine.restored_of_undone hplaced.ready.within hd''⟩
  rw [run_handle hk]
  change (volume (h.writeAt offset data) >>= _) s = _
  rw [bind_of_ok hvolume]
  rfl

/-- A file that cannot be made as long as asked for is left empty. -/
theorem create_restores (hcoherent : s.engine.store.Coherent)
    (hwithin : s.engine.map.bitmap.Within s.engine.store.size) {sector : UInt32}
    (hexists : sector.toNat < s.engine.store.size)
    (hused : s.engine.map.bitmap.used? sector.toNat = some true) (length : Nat) (isDir : Bool) :
    ∃ r s', run (.create sector length isDir) s = .ok (.result r) s' ∧
      ∀ refusal, r = .error refusal →
        s'.engine.store.content sector = (Inode.blank isDir).toSector ∧
        (Inode.blank isDir).isValid = true ∧
        s'.engine.answer (Inode.blank isDir).sectors = .ok [] ∧
        (∀ t, t ≠ sector → s.engine.map.bitmap.used? t.toNat = some true →
          s'.engine.store.content t = s.engine.store.content t) ∧
        ∀ i, s'.engine.map.bitmap.used? i = s.engine.map.bitmap.used? i := by
  have hblank := Inode.placed_blank (d := s.engine.medium) isDir hwithin hexists hused
  obtain ⟨r, d', heval, hrefused⟩ := Inode.eval_resize hblank length
  have hcreate := Volume.eval_create (d := s.engine.medium) hexists heval
  obtain ⟨e, hscript, hcoherent', rfl⟩ := script_of_eval_ok hcoherent hcreate
  refine ⟨r.map fun _ => (), { s with engine := e }, ?_, ?_⟩
  · change (script (Volume.create sector length isDir) >>= _) s = _
    rw [bind_of_ok hscript]
    rfl
  · intro refusal hr
    obtain ⟨refusal, rfl⟩ : ∃ refusal, r = .error refusal := by
      cases r with
      | error refusal => exact ⟨refusal, rfl⟩
      | ok m => exact absurd hr (by simp [Except.map])
    obtain ⟨hbitmap, hkept⟩ := Inode.kept_of_undone hwithin (hrefused refusal rfl)
    have hsectors : (Inode.blank isDir).sectors.eval e.medium =
        .ok ((Inode.blank isDir).blocks e.medium.content, e.medium) := by
      apply Inode.eval_sectors
      intro t ht
      have hmem := Forest.mem_sectors.2 (Or.inl ht)
      rw [← Inode.blocks, Inode.blocks_blank] at hmem
      exact absurd hmem (by simp)
    rw [Inode.blocks_blank] at hsectors
    refine ⟨?_, rfl, Engine.answer_of_eval_ok hcoherent' hsectors, fun t hne ht => ?_,
      fun i => ?_⟩
    · exact (hkept sector hused).trans (Medium.content_put_self ..)
    · exact (hkept t ht).trans (Medium.content_put_of_ne hne)
    · have hsame : e.map.bitmap = s.engine.map.bitmap := hbitmap
      rw [hsame]

end Refused

/-- What is refused has not happened: to the inode, to the file behind a handle, to the volume. -/
theorem refused_restores {s : Session} {n : Inode} {sector : UInt32}
    (hcoherent : s.engine.store.Coherent)
    (hcapacity : s.engine.map.bitmap.capacity ≤ s.engine.store.size)
    (hnumbered : s.engine.map.bitmap.capacity ≤ UInt32.size)
    (htail : ∀ i, s.engine.map.bitmap.capacity ≤ i → s.engine.map.bitmap.used? i ≠ some false)
    (hzero : s.engine.map.bitmap.used? 0 = some true)
    (hself : sector.toNat < s.engine.store.size ∧
      s.engine.map.bitmap.used? sector.toNat = some true)
    (hdistinct : (n.blocks s.engine.store.content).Nodup)
    (hblocks : ∀ t ∈ n.blocks s.engine.store.content, t ≠ sector ∧
      t.toNat < s.engine.store.size ∧ s.engine.map.bitmap.used? t.toNat = some true) :
    (∀ k length, s.held.get? k = some n →
      ∃ r s', run (.inode k (.resize sector length)) s = .ok (.result r) s' ∧
        ∀ refusal, r = .error refusal →
          s' = { s with engine := s'.engine } ∧ s.engine.Restored s'.engine) ∧
    (∀ k h offset data refusal, s.handles.get? k = some h → h.sector = sector →
      s.engine.store.content sector = n.toSector → n.isValid = true →
      n.length.toNat < offset + data.size →
      s.engine.answer (n.resize sector (offset + data.size)) = .ok (.error refusal) →
      ∃ s', run (.handle k (.write offset data)) s = .ok (.number 0) s' ∧
        s' = { s with engine := s'.engine } ∧ s.engine.Restored s'.engine) ∧
    ∀ length isDir, ∃ r s', run (.create sector length isDir) s = .ok (.result r) s' ∧
      ∀ refusal, r = .error refusal →
        s'.engine.store.content sector = (Inode.blank isDir).toSector ∧
        (Inode.blank isDir).isValid = true ∧
        s'.engine.answer (Inode.blank isDir).sectors = .ok [] ∧
        (∀ t, t ≠ sector → s.engine.map.bitmap.used? t.toNat = some true →
          s'.engine.store.content t = s.engine.store.content t) ∧
        ∀ i, s'.engine.map.bitmap.used? i = s.engine.map.bitmap.used? i := by
  have hwithin : s.engine.map.bitmap.Within s.engine.store.size :=
    Bitmap.within_of_capacity_le hcapacity hnumbered htail (by rw [hzero]; decide)
  have hplaced : n.Placed sector s.engine.medium := {
    ready := ⟨hwithin, hdistinct, fun t ht => (hblocks t ht).2.1, fun t ht => (hblocks t ht).2.2⟩
    exists_self := hself.1
    used_self := hself.2
    self_notMem := fun hmem => (hblocks sector hmem).1 rfl
  }
  refine ⟨?_, ?_, ?_⟩
  · exact fun k length hk => resize_restores hcoherent hplaced hk length
  · rintro k h offset data refusal hk rfl hstored hvalid hgrows hanswer
    exact write_restores hcoherent hplaced ⟨hself.1, hstored, hvalid⟩ hk hgrows hanswer
  · exact create_restores hcoherent hwithin hself.1 hself.2

/-- The small engine with an empty inode under number 0. -/
def small : Session where
  engine := Engine.small
  foreign := Metered.ofDevice (RamDisk.blank 0)
  registry := Table.empty
  handles := Table.empty
  held := Table.empty.insert 0 (Inode.blank false)

/-- Of the 197 sectors asked for six are there. -/
theorem refused_restores_small : ∃ s',
    run (.inode 0 (.resize 1 100000)) small = .ok (.result (.error .noSpace)) s' ∧
      s' = { small with engine := s'.engine } ∧ small.engine.Restored s'.engine := by
  have hself : (1 : UInt32).toNat < small.engine.store.size ∧
      small.engine.map.bitmap.used? (1 : UInt32).toNat = some true := by
    change _ < Engine.small.store.size ∧ Engine.small.map.bitmap.used? _ = _
    rw [Engine.size_small, Engine.used?_small]
    decide
  have hzero : small.engine.map.bitmap.used? 0 = some true := by
    change Engine.small.map.bitmap.used? 0 = _
    rw [Engine.used?_small]
    rfl
  have hcapacity : small.engine.map.bitmap.capacity ≤ small.engine.store.size := by
    change 8 ≤ Engine.small.store.size
    rw [Engine.size_small]
  have htail : ∀ i, small.engine.map.bitmap.capacity ≤ i →
      small.engine.map.bitmap.used? i ≠ some false := fun i hle hfree =>
    Nat.not_lt.2 hle (Engine.tail_small hfree).2
  have hblocks : (Inode.blank false).blocks small.engine.store.content = [] :=
    Inode.blocks_blank _ _
  have hall := refused_restores Engine.coherent_small hcapacity (by decide) htail hzero hself
    (by rw [hblocks]; exact List.nodup_nil) (by rw [hblocks]; simp)
  obtain ⟨r, s', hrun, hrestored⟩ := hall.1 0 100000 rfl
  have hrefused : (match run (.inode 0 (.resize 1 100000)) small with
      | .ok (.result (.error .noSpace)) _ => true
      | _ => false) = true := by
    decide +kernel
  rw [hrun] at hrefused
  cases r with
  | ok _ => exact absurd hrefused (by simp)
  | error refusal =>
    cases refusal with
    | tooLarge => exact absurd hrefused (by simp)
    | noSpace => exact ⟨s', hrun, hrestored .noSpace rfl⟩

end Session

end SectorVolume
