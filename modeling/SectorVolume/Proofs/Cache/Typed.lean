import SectorVolume.Proofs.Cache.Sectors
import SectorVolume.Proofs.Cache.Spelling

/-!
Requests for values told as requests for bytes. Storing a value does to slots, counters and
devices what writing its bytes does, and loading one what reading them does; a change in place is
a load and a store in one access. The bytes of a value that was stored are then in its range, and
no others have changed.
-/

namespace SectorVolume

namespace Access

variable {α : Type} [Plain α] {offset : Nat}

/-- Storing a value is writing its bytes, whether or not it fills a sector. -/
theorem writeAt_encode (h : Plain.Fits α offset) (a : α) :
    writeAt offset (Plain.encode a).toArray = .ok (store offset a) := by
  have hsize : (Plain.encode a).toArray.size = Plain.size α := Vector.size_toArray _
  have hbody : (store offset a).body = fun s =>
      .ok ((), s.overlay offset (Plain.encode a).toArray) :=
    funext fun s => body_store h s a
  have hneeds : ((Plain.encode a).toArray.size != sectorSize) =
      !(offset == 0 && Plain.size α == sectorSize) := by
    rw [hsize]
    by_cases hwhole : Plain.size α = sectorSize
    · obtain rfl : offset = 0 := by
        have := h.1
        omega
      simp [hwhole]
    · rw [bne, beq_eq_false_iff_ne.2 hwhole, Bool.and_false]
  rw [writeAt, checkRange_of_le (by rw [hsize]; exact Nat.add_comm _ _ ▸ h.1), hneeds, ← hbody]
  rfl

/-- The same access with another reply. -/
def reply {α β : Type} (g : α → β) (a : Access α) : Access β where
  needsData := a.needsData
  writes := a.writes
  body s := (a.body s).map fun (r, t) => (g r, t)

theorem body_reply {α β : Type} (g : α → β) (a : Access α) (s : Sector) :
    (a.reply g).body s = (a.body s).map fun (r, t) => (g r, t) := rfl

/-- Loading a value is reading its bytes, but for the form of the answer. -/
theorem readAt_eq_reply (h : Plain.Fits α offset) :
    readAt offset (Plain.size α) =
      .ok ((load α offset).reply fun a => (Plain.encode a).toArray) := by
  have hin : offset + Plain.size α ≤ sectorSize := Nat.add_comm _ _ ▸ h.1
  have hbytes : ∀ s : Sector,
      s.bytes offset (Plain.size α) = (Plain.encode (s.decodeAt α offset h.1)).toArray := by
    intro s
    have hsize := (Plain.encode (s.decodeAt α offset h.1)).size_toArray
    have hover := Sector.bytes_overlay s offset (Plain.encode (s.decodeAt α offset h.1)).toArray
      (by rw [hsize]; exact hin)
    have hback : s.encodeAt offset (s.decodeAt α offset h.1) = s :=
      Sector.encodeAt_decodeAt s offset h.1
    rw [Sector.encodeAt] at hback
    rw [hback, hsize] at hover
    exact hover
  rw [readAt, checkRange_of_le hin]
  refine congrArg Except.ok ?_
  rw [reply]
  congr 1
  funext s
  rw [body_load h, hbytes]
  rfl

end Access

theorem map_apply {σ α β : Type} (g : α → β) (m : EStateM Fault σ α) (s : σ) :
    (g <$> m) s = match m s with
      | .ok a t => .ok (g a) t
      | .error f t => .error f t := by
  change EStateM.map g m s = _
  rw [EStateM.map]
  cases m s <;> rfl

section Replies

variable {D α β : Type} (g : α → β) (a : Access α)

theorem Cached.touch_reply (i : Nat) (line : Line) :
    touch i line (a.reply g) = (g <$> touch i line a : EStateM Fault (Cached D) β) := by
  funext c
  rw [map_apply]
  cases hbody : a.body line.data <;> simp only [touch, Access.body_reply, hbody] <;> rfl

variable [BlockDevice D]

theorem Cached.perform_reply (s : UInt32) :
    perform s (a.reply g) = (g <$> perform s a : EStateM Fault (Cached D) β) := by
  funext c
  cases hfind : c.cache.find? s with
  | some found =>
    obtain ⟨i, line⟩ := found
    rw [perform_of_find?_eq_some hfind, touch_reply, map_apply, map_apply,
      perform_of_find?_eq_some hfind]
  | none =>
    have htouch : ∀ filled : Nat × Line, touch filled.1 filled.2 (a.reply g) =
        (g <$> touch filled.1 filled.2 a : EStateM Fault (Cached D) β) :=
      fun filled => touch_reply g a filled.1 filled.2
    rw [perform_of_find?_eq_none hfind, map_apply, perform_of_find?_eq_none hfind, ← map_apply,
      map_bind]
    exact congrFun (congrArg (bringIn s a.needsData >>= ·) (funext htouch)) c

theorem Metered.work_reply (i : Nat) (s : Sector) :
    work i (a.reply g) s = (g <$> work i a s : EStateM Fault (Metered D) β) := by
  unfold work
  rw [Access.body_reply]
  cases a.body s with
  | error f => rfl
  | ok result =>
    obtain ⟨r, t⟩ := result
    change (if a.writes then _ else _) = _
    cases a.writes <;> simp

theorem Metered.perform_reply (i : Nat) :
    perform i (a.reply g) = (g <$> perform i a : EStateM Fault (Metered D) β) := by
  rw [perform_eq, perform_eq, map_bind]
  exact congrArg _ (funext (work_reply g a i))

theorem Bench.perform_reply (target : Target) (s : UInt32) :
    perform target s (a.reply g) = g <$> perform target s a := by
  funext b
  rw [map_apply]
  cases target with
  | managed =>
    simp only [perform, onStore, Cached.perform_reply, map_apply]
    cases Cached.perform s a b.store <;> rfl
  | foreign =>
    simp only [perform, onForeign, Metered.perform_reply, map_apply]
    cases Metered.perform s.toNat a b.foreign <;> rfl

end Replies

namespace Cached

variable {α : Type} {c d : Cached RamDisk} {s : UInt32}

section Modify

variable {β : Type} [Plain α] {offset : Nat} (hfits : Plain.Fits α offset) (f : α → β × α)
include hfits

/-- A change in place does what a load and a store do one after the other, but for the hit that
the second one counts. -/
theorem exists_modify_of_load {v : α} (h : perform s (Access.load α offset) c = .ok v d) :
    ∃ e, perform s (Access.modify offset fun a => .ok (f a)) c = .ok (f v).1 e ∧
      perform s (Access.store offset (f v).2) d = .ok () ⟨e.cache.countHit, e.disk⟩ := by
  obtain ⟨mid, i, line, hready⟩ | ⟨fault, mid, hfail⟩ := ready_or_failed c s true
  · rw [hready.perform_of_body_ok rfl (Access.body_load hfits line.data)] at h
    cases h
    refine ⟨_, hready.perform_of_body_ok rfl (Access.body_modify hfits line.data f), ?_⟩
    rw [perform_of_find?_eq_some (hready.find?_setSlot
      ⟨line.sector, line.data, line.dirty || (Access.load α offset).writes, true⟩ hready.sector)]
    simp only [touch, Access.body_store hfits, Cache.setSlot_countHit, Cache.setSlot_setSlot]
    rw [show (Access.store offset (f (line.data.decodeAt α offset hfits.1)).2).writes =
      true from rfl,
      Bool.or_true, show (Access.modify offset fun a => .ok (f a)).writes = true from rfl,
      Bool.or_true]
  · rw [hfail _ rfl] at h
    cases h

theorem modify_error_of_load {fault : Fault}
    (h : perform s (Access.load α offset) c = .error fault d) :
    perform s (Access.modify offset fun a => .ok (f a)) c = .error fault d := by
  obtain ⟨mid, i, line, hready⟩ | ⟨fault', mid, hfail⟩ := ready_or_failed c s true
  · rw [hready.perform_of_body_ok rfl (Access.body_load hfits line.data)] at h
    cases h
  · rw [hfail _ rfl] at h ⊢
    cases h
    rfl

end Modify

end Cached

namespace Metered

variable {α : Type} {d d' : Metered RamDisk} {i : Nat}

section Modify

variable {β : Type} [Plain α] {offset : Nat} (hfits : Plain.Fits α offset) (f : α → β × α)
include hfits

theorem perform_load_of_lt (hi : i < d.device.sectors.size) :
    perform i (Access.load α offset) d = .ok (d.device.sectors[i].decodeAt α offset hfits.1)
      { d with reads := d.reads + 1 } := by
  rw [perform_eq, show (Access.load α offset).needsData = true from rfl, if_pos rfl,
    bind_of_ok (read_of_lt hi), work_of_body_ok (Access.body_load hfits _)]
  rfl

/-- The same for a disk without a cache. The store would read once more, unless its value fills
the sector. -/
theorem exists_modify_of_load {v : α} (h : perform i (Access.load α offset) d = .ok v d') :
    ∃ e, perform i (Access.modify offset fun a => .ok (f a)) d = .ok (f v).1 e ∧
      perform i (Access.store offset (f v).2) d' =
        .ok () { e with reads := e.reads + (Access.store offset (f v).2).needsData.toNat } := by
  rcases Nat.lt_or_ge i d.device.sectors.size with hi | hi
  · rw [perform_load_of_lt hfits hi] at h
    cases h
    refine ⟨_, perform_of_writes (Access.honest_modify offset f) rfl hi
      (Access.body_modify hfits _ f), ?_⟩
    exact perform_of_writes (d := ⟨d.device, d.reads + 1, d.writes⟩)
      (Access.honest_store hfits _) rfl hi (Access.body_store hfits _ _)
  · rw [perform_of_missing rfl hi] at h
    cases h

theorem modify_error_of_load {fault : Fault}
    (h : perform i (Access.load α offset) d = .error fault d') :
    perform i (Access.modify offset fun a => .ok (f a)) d = .error fault d' := by
  rcases Nat.lt_or_ge i d.device.sectors.size with hi | hi
  · rw [perform_load_of_lt hfits hi] at h
    cases h
  · rw [perform_of_missing rfl hi] at h ⊢
    cases h
    rfl

end Modify

end Metered

namespace Bench

/-- A sector of one of the disks, seen through the cache where there is one. -/
def content (b : Bench) : Target → UInt32 → Sector
  | .managed, s => b.store.content s
  | .foreign, s => b.foreign.content s.toNat

/-- The bytes of a range of a sector. -/
def range (b : Bench) (target : Target) (s : UInt32) (offset len : Nat) : List UInt8 :=
  slice (b.content target s).toList offset len

/-- The bench after one more access that finds everything done, and only counts: a hit in the
cache, or a read where there is no cache and the access needs the bytes. -/
def counted (b : Bench) : Target → (needsData : Bool) → Bench
  | .managed, _ => ⟨⟨b.store.cache.countHit, b.store.disk⟩, b.foreign⟩
  | .foreign, needsData =>
    ⟨b.store, { b.foreign with reads := b.foreign.reads + needsData.toNat }⟩

/-- Nothing but `len` bytes of one sector is changed. -/
structure KeepsOutside (b b' : Bench) (target : Target) (s : UInt32)
    (offset len : Nat) : Prop where
  bytes : ∀ k, k < offset ∨ offset + len ≤ k →
    (b'.content target s)[k]? = (b.content target s)[k]?
  others : b.store.Coherent → (target = .managed → s.toNat < b.store.size) →
    ∀ target' s', (target', s') ≠ (target, s) → b'.content target' s' = b.content target' s'

variable {α : Type} {b b' : Bench} {target : Target} {s : UInt32} {a : Access α} {r : α}

theorem perform_managed_eq_ok (h : perform .managed s a b = .ok r b') :
    Cached.perform s a b.store = .ok r b'.store ∧ b'.foreign = b.foreign := by
  cases hrun : Cached.perform s a b.store with
  | error f c => simp [perform, onStore, hrun] at h
  | ok r' c =>
    simp only [perform, onStore, hrun, EStateM.Result.ok.injEq] at h
    obtain ⟨rfl, rfl⟩ := h
    exact ⟨rfl, rfl⟩

theorem perform_foreign_eq_ok (h : perform .foreign s a b = .ok r b') :
    Metered.perform s.toNat a b.foreign = .ok r b'.foreign ∧ b'.store = b.store := by
  cases hrun : Metered.perform s.toNat a b.foreign with
  | error f d => simp [perform, onForeign, hrun] at h
  | ok r' d =>
    simp only [perform, onForeign, hrun, EStateM.Result.ok.injEq] at h
    obtain ⟨rfl, rfl⟩ := h
    exact ⟨rfl, rfl⟩

theorem content_of_perform (ha : a.Honest) (h : perform target s a b = .ok r b') :
    a.body (b.content target s) = .ok (r, b'.content target s) := by
  cases target with
  | managed => exact Cached.content_of_perform ha (perform_managed_eq_ok h).1
  | foreign => exact (Metered.content_of_perform ha (perform_foreign_eq_ok h).1).1

theorem content_of_ne (ha : a.Honest) (h : perform target s a b = .ok r b')
    (hcoherent : b.store.Coherent) (hs : target = .managed → s.toNat < b.store.size)
    {target' : Target} {s' : UInt32} (hne : (target', s') ≠ (target, s)) :
    b'.content target' s' = b.content target' s' := by
  cases target with
  | managed =>
    obtain ⟨hrun, hforeign⟩ := perform_managed_eq_ok h
    cases target' with
    | managed =>
      have hne' : s' ≠ s := fun he => hne (by rw [he])
      obtain ⟨c, hrun', -, -, hcontent⟩ := Cached.perform_of_body_ok hcoherent (hs rfl) ha
        (Cached.content_of_perform ha hrun)
      rw [hrun] at hrun'
      cases hrun'
      exact (congrFun hcontent s').trans (Function.update_of_ne hne' _ _)
    | foreign => exact congrArg (Metered.content · s'.toNat) hforeign
  | foreign =>
    obtain ⟨hrun, hstore⟩ := perform_foreign_eq_ok h
    cases target' with
    | managed => exact congrArg (Cached.content · s') hstore
    | foreign =>
      refine (Metered.content_of_perform ha hrun).2 s'.toNat fun he => hne ?_
      rw [UInt32.toNat_inj.1 he]

theorem keepsOutside_of_perform (ha : a.Honest) (h : perform target s a b = .ok r b')
    {offset : Nat}
    {data : Array UInt8} (hbody : a.body (b.content target s) =
      .ok (r, (b.content target s).overlay offset data)) :
    b.KeepsOutside b' target s offset data.size := by
  refine ⟨fun k hk => ?_, fun hcoherent hs _ _ hne => content_of_ne ha h hcoherent hs hne⟩
  have hcontent := content_of_perform ha h
  rw [hbody, Except.ok.injEq, Prod.mk.injEq] at hcontent
  rw [← hcontent.2]
  by_cases hlt : k < sectorSize
  · rw [Vector.getElem?_eq_getElem hlt, Vector.getElem?_eq_getElem hlt, Sector.getElem_overlay,
      dif_neg (by omega)]
  · rw [Vector.getElem?_eq_none (Nat.le_of_not_lt hlt),
      Vector.getElem?_eq_none (Nat.le_of_not_lt hlt)]

end Bench

namespace CacheCall

variable {α β : Type} [Plain α] (target : Target) (s : UInt32) (offset : Nat)

theorem onBench_load : onBench (ask target s (.load α offset)) =
    Bench.perform target s (Access.load α offset) := rfl

theorem onBench_store (v : α) : onBench (ask target s (.store offset v)) =
    Bench.perform target s (Access.store offset v) := rfl

theorem onBench_mapMut (f : α → β × α) : onBench (ask target s (.mapMut offset f)) =
    Bench.perform target s (Access.modify offset fun a => .ok (f a)) := rfl

end CacheCall

namespace Layout

open CacheCall

/-- Requests for values at an offset, told as requests for bytes. -/
structure Bytewise (layout : Layout) (offset : Nat) : Prop where
  /-- A store does just what a write of the bytes does. -/
  store : ∀ (b : Bench) (target : Target) (s : UInt32) (v : layout.Value),
    onBench (ask target s (.store offset v)) b =
      onBench (ask target s (.writeAt offset (layout.spell v).toArray)) b
  /-- A load does just what a read of the bytes does, and answers with the value that they
  spell. -/
  load : ∀ (b : Bench) (target : Target) (s : UInt32),
    onBench (ask target s (.readAt offset (Plain.size layout.Value))) b =
      ((fun v => (layout.spell v).toArray) <$>
        onBench (ask target s (.load layout.Value offset))) b
  /-- A change in place does what a load and a store of the new value do, in one access. -/
  modify : ∀ {β : Type} (b b₁ : Bench) (target : Target) (s : UInt32)
    (f : layout.Value → β × layout.Value) (v : layout.Value),
    onBench (ask target s (.load layout.Value offset)) b = .ok v b₁ →
      ∃ b₂, onBench (ask target s (.mapMut offset f)) b = .ok (f v).1 b₂ ∧
        onBench (ask target s (.store offset (f v).2)) b₁ =
          .ok () (b₂.counted target (Plain.size layout.Value ≠ sectorSize))
  modify_error : ∀ {β : Type} (b b₁ : Bench) (target : Target) (s : UInt32)
    (f : layout.Value → β × layout.Value) (e : Fault),
    onBench (ask target s (.load layout.Value offset)) b = .error e b₁ →
      onBench (ask target s (.mapMut offset f)) b = .error e b₁
  /-- A store leaves the bytes of its value in the range. -/
  store_inside : ∀ (b b' : Bench) (target : Target) (s : UInt32) (v : layout.Value),
    onBench (ask target s (.store offset v)) b = .ok () b' →
      b'.range target s offset (Plain.size layout.Value) = layout.spell v
  load_inside : ∀ (b b' : Bench) (target : Target) (s : UInt32) (v : layout.Value),
    onBench (ask target s (.load layout.Value offset)) b = .ok v b' →
      b.range target s offset (Plain.size layout.Value) = layout.spell v
  modify_inside : ∀ {β : Type} (b b' : Bench) (target : Target) (s : UInt32)
    (f : layout.Value → β × layout.Value) (r : β),
    onBench (ask target s (.mapMut offset f)) b = .ok r b' →
      ∃ v, b.range target s offset (Plain.size layout.Value) = layout.spell v ∧ r = (f v).1 ∧
        b'.range target s offset (Plain.size layout.Value) = layout.spell (f v).2
  store_outside : ∀ (b b' : Bench) (target : Target) (s : UInt32) (v : layout.Value),
    onBench (ask target s (.store offset v)) b = .ok () b' →
      b.KeepsOutside b' target s offset (Plain.size layout.Value)
  modify_outside : ∀ {β : Type} (b b' : Bench) (target : Target) (s : UInt32)
    (f : layout.Value → β × layout.Value) (r : β),
    onBench (ask target s (.mapMut offset f)) b = .ok r b' →
      b.KeepsOutside b' target s offset (Plain.size layout.Value)

variable {layout : Layout} {offset : Nat}

/-- An access that lays a value over its sector changes nothing else. -/
theorem keepsOutside {β : Type} {a : Access β} (ha : a.Honest) {r : β} {b b' : Bench}
    {target : Target} {s : UInt32} (v : layout.Value)
    (hrun : Bench.perform target s a b = .ok r b') (hbody : a.body (b.content target s) =
      .ok (r, (b.content target s).encodeAt offset v)) :
    b.KeepsOutside b' target s offset (Plain.size layout.Value) := by
  have hsize : (Plain.encode v).toArray.size = Plain.size layout.Value := Vector.size_toArray _
  rw [← hsize]
  exact Bench.keepsOutside_of_perform ha hrun hbody

section Parts

variable (h : Plain.Fits layout.Value offset)
include h

/-- The value that stands in a range is spelled by its bytes. -/
theorem range_eq_spell (b : Bench) (target : Target) (s : UInt32) :
    b.range target s offset (Plain.size layout.Value) =
      layout.spell ((b.content target s).decodeAt layout.Value offset h.1) := by
  have hlength : (b.range target s offset (Plain.size layout.Value)).length =
      Plain.size layout.Value := by
    refine length_slice ?_
    rw [Vector.length_toList, Nat.add_comm]
    exact h.1
  rw [Sector.decodeAt_eq_ofBytes, ← layout.toList_encode]
  exact (Plain.toBytes_ofBytes hlength).symm

/-- Where a value was laid over a sector, its bytes are in the range. -/
theorem range_of_encodeAt {b b' : Bench} {target : Target} {s : UInt32} {v : layout.Value}
    (hcontent : b'.content target s = (b.content target s).encodeAt offset v) :
    b'.range target s offset (Plain.size layout.Value) = layout.spell v := by
  rw [range_eq_spell h, hcontent, Sector.decodeAt_encodeAt]

theorem access_writeAt (v : layout.Value) :
    (Request.writeAt offset (layout.spell v).toArray).access = .ok (Access.store offset v) := by
  rw [Request.access, toArray_spell, Access.writeAt_encode h]

theorem access_readAt : (Request.readAt offset (Plain.size layout.Value)).access =
    .ok ((Access.load layout.Value offset).reply fun v => (layout.spell v).toArray) := by
  rw [Request.access, Access.readAt_eq_reply h]
  simp only [toArray_spell]

/-- A value that fills a sector starts at its first byte. -/
theorem needsData_store (v : layout.Value) : (Access.store offset v).needsData =
    decide (Plain.size layout.Value ≠ sectorSize) := by
  have hin := h.1
  change (!(offset == 0 && Plain.size layout.Value == sectorSize)) = _
  by_cases hwhole : Plain.size layout.Value = sectorSize
  · obtain rfl : offset = 0 := by omega
    simp [hwhole]
  · simp [hwhole]

variable {β : Type} {b b₁ : Bench} {target : Target} {s : UInt32}
  (f : layout.Value → β × layout.Value)

theorem exists_mapMut_of_load {v : layout.Value}
    (hload : onBench (ask target s (.load layout.Value offset)) b = .ok v b₁) :
    ∃ b₂, onBench (ask target s (.mapMut offset f)) b = .ok (f v).1 b₂ ∧
      onBench (ask target s (.store offset (f v).2)) b₁ =
        .ok () (b₂.counted target (Plain.size layout.Value ≠ sectorSize)) := by
  rw [onBench_load] at hload
  rw [onBench_mapMut, onBench_store]
  cases target with
  | managed =>
    obtain ⟨hrun, hforeign⟩ := Bench.perform_managed_eq_ok hload
    obtain ⟨c, hmodify, hstore⟩ := Cached.exists_modify_of_load h f hrun
    refine ⟨_, Bench.perform_managed_of_ok hmodify, ?_⟩
    rw [Bench.perform_managed_of_ok hstore, hforeign]
    rfl
  | foreign =>
    obtain ⟨hrun, hkept⟩ := Bench.perform_foreign_eq_ok hload
    obtain ⟨d, hmodify, hstore⟩ := Metered.exists_modify_of_load h f hrun
    refine ⟨_, Bench.perform_foreign_of_ok hmodify, ?_⟩
    rw [Bench.perform_foreign_of_ok hstore, hkept, needsData_store h]
    rfl

theorem mapMut_error_of_load {e : Fault}
    (hload : onBench (ask target s (.load layout.Value offset)) b = .error e b₁) :
    onBench (ask target s (.mapMut offset f)) b = .error e b₁ := by
  rw [onBench_load] at hload
  rw [onBench_mapMut]
  cases target with
  | managed =>
    cases hrun : Cached.perform s (Access.load layout.Value offset) b.store with
    | ok v c => simp [Bench.perform, Bench.onStore, hrun] at hload
    | error e' c =>
      simp only [Bench.perform, Bench.onStore, hrun] at hload
      cases hload
      simp only [Bench.perform, Bench.onStore, Cached.modify_error_of_load h f hrun]
      rfl
  | foreign =>
    cases hrun : Metered.perform s.toNat (Access.load layout.Value offset) b.foreign with
    | ok v d => simp [Bench.perform, Bench.onForeign, hrun] at hload
    | error e' d =>
      simp only [Bench.perform, Bench.onForeign, hrun] at hload
      cases hload
      simp only [Bench.perform, Bench.onForeign, Metered.modify_error_of_load h f hrun]
      rfl

end Parts

theorem bytewise_of_fits (h : Plain.Fits layout.Value offset) : layout.Bytewise offset where
  store b target s v := by
    rw [onBench_store, onBench_ask (access_writeAt h v)]
  load b target s := by
    rw [onBench_ask (access_readAt h)]
    exact congrFun (Bench.perform_reply _ _ target s) b
  modify b b₁ target s f v hload := exists_mapMut_of_load h f hload
  modify_error b b₁ target s f e hload := mapMut_error_of_load h f hload
  store_inside b b' target s v hrun := by
    rw [onBench_store] at hrun
    have hcontent := Bench.content_of_perform (Access.honest_store h v) hrun
    rw [Access.body_store h, Except.ok.injEq, Prod.mk.injEq] at hcontent
    exact range_of_encodeAt h hcontent.2.symm
  load_inside b b' target s v hrun := by
    rw [onBench_load] at hrun
    have hcontent : (Access.load layout.Value offset).body (b.content target s) = _ :=
      Bench.content_of_perform (Access.honest_view h id) hrun
    rw [Access.body_load h, Except.ok.injEq, Prod.mk.injEq] at hcontent
    rw [range_eq_spell h, hcontent.1]
  modify_inside b b' target s f r hrun := by
    rw [onBench_mapMut] at hrun
    have hcontent := Bench.content_of_perform (Access.honest_modify offset f) hrun
    rw [Access.body_modify h, Except.ok.injEq, Prod.mk.injEq] at hcontent
    exact ⟨_, range_eq_spell h b target s, hcontent.1.symm, range_of_encodeAt h hcontent.2.symm⟩
  store_outside b b' target s v hrun := by
    rw [onBench_store] at hrun
    exact keepsOutside (Access.honest_store h v) v hrun (Access.body_store h _ v)
  modify_outside b b' target s f r hrun := by
    rw [onBench_mapMut] at hrun
    have ha := Access.honest_modify offset f
    have hbody := Access.body_modify h (b.content target s) f
    have hanswer := Bench.content_of_perform ha hrun
    rw [hbody, Except.ok.injEq, Prod.mk.injEq] at hanswer
    rw [hanswer.1] at hbody
    exact keepsOutside ha _ hrun hbody

end Layout

/-- Values are stored and loaded as their bytes are written and read, by the same steps on slots,
hand, marks, counters and devices; a change in place is a load and a store in one; afterwards the
range holds the bytes of the value, and no other byte is touched. Every row of bytes of the length
of a kind of value spells one value of it, so that inodes and index blocks are decoded from any
sector and encoded to it again. -/
theorem values_are_their_bytes :
    (∀ (layout : Layout) (offset : Nat), Plain.Fits layout.Value offset →
      layout.Bytewise offset) ∧
    (∀ (layout : Layout) (bytes : List UInt8), bytes.length = Plain.size layout.Value →
      ∃! v, layout.spell v = bytes) ∧
    (∀ n : Inode, n.toSector.toList = Layout.inode.spell n ∧ Inode.ofSector n.toSector = n) ∧
    (∀ v : IndexBlock, (IndexBlock.toSector v).toList = (Layout.words 128).spell v ∧
      IndexBlock.ofSector (IndexBlock.toSector v) = v) ∧
    ∀ t : Sector, (Inode.ofSector t).toSector = t ∧
      IndexBlock.toSector (IndexBlock.ofSector t) = t := by
  refine ⟨fun layout offset h => Layout.bytewise_of_fits h,
    fun layout bytes h => layout.existsUnique_spell h, fun n => ⟨?_, n.ofSector_toSector⟩,
    fun v => ⟨?_, v.ofSector_toSector⟩, fun t => ⟨Inode.toSector_ofSector t, ?_⟩⟩
  · exact Layout.inode.toList_encode n
  · exact (Layout.words 128).toList_encode v
  · exact IndexBlock.toSector_ofSector t

/-- One slot, two disks of zeros, and nothing done yet. -/
def Bench.oneSlot : Bench :=
  ⟨⟨Cache.empty 1 Nat.one_pos, CacheCall.twoDisks.managed⟩, CacheCall.twoDisks.foreign⟩

/-- Two numbers are stored as eight bytes, and replacing them in place is one access. -/
theorem two_words_are_eight_bytes : Plain.Fits (Layout.words 2).Value 8 ∧
    CacheCall.onBench (.ask .managed 0 (.store 8 (#v[0x04030201, 5] : (Layout.words 2).Value)))
        Bench.oneSlot =
      CacheCall.onBench (.ask .managed 0 (.writeAt 8 #[1, 2, 3, 4, 5, 0, 0, 0])) Bench.oneSlot ∧
    ∃ (v : (Layout.words 2).Value) (b₁ b₂ b₃ : Bench),
      CacheCall.onBench (.ask .foreign 0 (.load (Layout.words 2).Value 8)) Bench.oneSlot =
        .ok v b₁ ∧
      CacheCall.onBench (.ask .foreign 0 (.mapMut 8 fun v : (Layout.words 2).Value =>
        (v, (#v[9, 0x0201] : (Layout.words 2).Value)))) Bench.oneSlot = .ok v b₂ ∧
      CacheCall.onBench (.ask .foreign 0 (.store 8 (#v[9, 0x0201] : (Layout.words 2).Value))) b₁ =
        .ok () b₃ ∧
      b₃ = b₂.counted .foreign true ∧
      b₃.range .foreign 0 8 8 = [9, 0, 0, 0, 1, 2, 0, 0] := by
  have hfits : Plain.Fits (Layout.words 2).Value 8 := ⟨by decide, by decide⟩
  have hbytes := values_are_their_bytes.1 (.words 2) 8 hfits
  have hload := Metered.perform_load_of_lt (d := Bench.oneSlot.foreign) (i := 0) hfits
    (show 0 < (Array.replicate 1 Sector.zero).size by simp)
  have hrun := (congrFun (CacheCall.onBench_load .foreign 0 8) Bench.oneSlot).trans
    (Bench.perform_foreign_of_ok hload)
  obtain ⟨b₂, hmodify, hstore⟩ := hbytes.modify _ _ .foreign 0
    (fun v => (v, (#v[9, 0x0201] : (Layout.words 2).Value))) _ hrun
  exact ⟨hfits, hbytes.store Bench.oneSlot .managed 0 #v[0x04030201, 5], _, _, b₂, _, hrun,
    hmodify, hstore, rfl, hbytes.store_inside _ _ .foreign 0 #v[9, 0x0201] hstore⟩

end SectorVolume
