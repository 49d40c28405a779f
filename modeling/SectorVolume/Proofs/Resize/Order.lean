import SectorVolume.Proofs.Resize.Outcome
import SectorVolume.Proofs.Script.Ledger

/-!
The order in which a walk takes and returns sectors. On every level of the index the blocks that a
length needs come before those that it does not need, so a walk that has returned a sector needs
nothing of what is still before it and takes no sector any more. A walk that is refused has
returned nothing: the sectors and the index blocks in its journal are all that it has changed, and
undoing them is enough.
-/

namespace SectorVolume

open FreeMap

namespace Journal

/-- With `n` data blocks still needed, the requests made are those for the sectors in the journal,
and returns after them only if nothing more is needed. -/
def Accounts (j : Journal) (n : Nat) (made : List Request) : Prop :=
  ∃ returned : List UInt32,
    made = returned.map (.returned · 1) ++ j.allocated.map (.granted · 1) ∧
    (n ≠ 0 → returned = [])

theorem accounts_empty (n : Nat) : Accounts {} n [] := ⟨[], rfl, fun _ => rfl⟩

variable {j : Journal} {n : Nat} {made : List Request}

theorem Accounts.eq_of_needed (h : j.Accounts n made) (hn : n ≠ 0) :
    made = j.allocated.map (.granted · 1) := by
  obtain ⟨returned, rfl, hnone⟩ := h
  rw [hnone hn, List.map_nil, List.nil_append]

/-- As long as something is needed nothing was returned. -/
theorem Accounts.isReturned_eq_false (h : j.Accounts n made) (hn : n ≠ 0) :
    ∀ q ∈ made, q.isReturned = false := by
  rw [h.eq_of_needed hn]
  intro q hq
  obtain ⟨s, -, rfl⟩ := List.mem_map.1 hq
  rfl

theorem Accounts.granted (h : j.Accounts n made) (hn : n ≠ 0) (s : UInt32) :
    Accounts { j with allocated := s :: j.allocated } n (.granted s 1 :: made) :=
  ⟨[], by rw [h.eq_of_needed hn]; rfl, fun _ => rfl⟩

theorem Accounts.returned (h : j.Accounts 0 made) (s : UInt32) :
    j.Accounts 0 (.returned s 1 :: made) := by
  obtain ⟨returned, rfl, -⟩ := h
  exact ⟨s :: returned, rfl, fun hn => absurd rfl hn⟩

/-- A walk that ends with `n` data blocks needed behind it has a journal that accounts for its
requests. One that is refused has made the last of them in vain and returned nothing. -/
def Closes {α : Type} (n : Nat) (made : List Request) : Except Refusal α × Journal → Prop
  | (.ok _, j) => j.Accounts n made
  | (.error _, j) => made = .refused 1 :: j.allocated.map (.granted · 1)

end Journal

open Journal

namespace Walk

variable {α β : Type} {n m l : Nat}

/-- Where the data blocks from here on that are needed are `n`, the walk deals with those of its
own pointers and leaves `m` to be dealt with. -/
def Passes (w : Walk α) (n m : Nat) : Prop :=
  ∀ (j : Journal) (made : List Request), j.Accounts n made → (w.run.run j).Orderly (Closes m) made

theorem passes_pure (a : α) (h : n = 0 → m = 0) : (pure a : Walk α).Passes n m := by
  rintro j made ⟨returned, hmade, hnone⟩
  exact .done ⟨returned, hmade, fun hm => hnone fun hn => hm (h hn)⟩

theorem Passes.bind {w : Walk α} {k : α → Walk β} (hw : w.Passes n m)
    (hk : ∀ a, (k a).Passes m l) :
    (w >>= k).Passes n l := by
  intro j made hj
  rw [ExceptT.run_bind, StateT.run_bind]
  refine (hw j made hj).bind ?_
  rintro made' ⟨r, j'⟩ hcloses
  cases r with
  | error refusal => exact .done hcloses
  | ok a => exact hk a j' made' hcloses

theorem passes_fetch (s : UInt32) : (liftM (fetchSector s) : Walk Sector).Passes n n :=
  fun _ _ hj => .fetch fun _ => .done hj

theorem passes_put (s : UInt32) (data : Sector) :
    (liftM (putSector s data) : Walk Unit).Passes n n :=
  fun _ _ hj => .put (.done hj)

theorem passes_release (s : UInt32) : (liftM (releaseSector s) : Walk Unit).Passes 0 0 :=
  fun _ _ hj => .release (.done (hj.returned s))

theorem passes_save (e : UInt32 × IndexBlock) :
    (modify fun j => { j with overwritten := e :: j.overwritten } : Walk PUnit).Passes n n :=
  fun _ _ hj => .done hj

/-- A sector is taken only while data blocks are needed. -/
theorem passes_take (hn : n ≠ 0) : take.Passes n n :=
  fun _ _ hj => .alloc (hj.isReturned_eq_false hn) (.done (congrArg _ (hj.eq_of_needed hn)))
    fun s => .done (hj.granted hn s)

theorem passes_fit_zero (block : UInt32) (n : Nat) : (fit 0 block n).Passes n (n - span 0) := by
  rw [fit, span_zero]
  split
  · rename_i h
    exact (passes_take h.1).bind fun s => (passes_put s _).bind fun _ => passes_pure s (by omega)
  · split
    · rename_i h
      obtain ⟨rfl, -⟩ := h
      exact (passes_release block).bind fun _ => passes_pure 0 (by omega)
    · exact passes_pure block (by omega)

/-- The pointers of a row are fitted in turn, and each of them finds needed what those before it
have not dealt with. -/
theorem passes_fitEach {level : Nat}
    (hfit : ∀ block n, (fit level block n).Passes n (n - span level)) {count : Nat}
    (v : Vector UInt32 count) (n : Nat) :
    (fitEach (fun entry k => fit level entry k) (span level) n count v).Passes n
      (n - count * span level) := by
  induction count with
  | zero => exact passes_pure v (by omega)
  | succ count ih =>
    rw [fitEach, fit_min, Nat.add_mul, Nat.one_mul, ← Nat.sub_sub]
    exact (ih v.pop).bind fun front => (hfit v.back _).bind fun last => passes_pure _ id

theorem passes_openIndex {block : UInt32} (h : n = 0 → block ≠ 0) :
    (openIndex block).Passes n n := by
  rw [openIndex]
  split
  · rename_i hblock
    exact (passes_take fun hn => h hn hblock).bind fun s => passes_pure _ id
  · exact (passes_fetch block).bind fun s => (passes_save _).bind fun _ => passes_pure _ id

/-- An index block is returned only if nothing is needed, below it or behind it. -/
theorem passes_closeIndex (block : UInt32) (entries : IndexBlock) (n k : Nat) :
    (closeIndex block entries n).Passes (n - k) (n - k) := by
  rw [closeIndex]
  split
  · rename_i hn
    rw [hn, Nat.zero_sub]
    exact (passes_release block).bind fun _ => passes_pure 0 id
  · exact (passes_put block _).bind fun _ => passes_pure block id

/-- A pointer of any level deals with as many data blocks as it has places for. -/
theorem passes_fit (level : Nat) (block : UInt32) (n : Nat) :
    (fit level block n).Passes n (n - span level) := by
  induction level generalizing block n with
  | zero => exact passes_fit_zero block n
  | succ level ih =>
    rw [span, fit]
    split
    · rename_i h
      exact passes_pure block (by omega)
    · rename_i h
      refine (passes_openIndex fun hn hblock => h ⟨hn, hblock⟩).bind ?_
      rintro ⟨block, entries⟩
      exact (passes_fitEach ih entries n).bind fun entries => passes_closeIndex block entries n _

end Walk

namespace Inode

/-- A walk asks for sectors first and returns sectors then. -/
theorem orderly_walk (n : Inode) (blocks : Nat) : (n.walk blocks).Orderly (Closes 0) [] := by
  have hdirect : (Walk.fitEach (fun entry k => Walk.fit 0 entry k) (span 0) blocks 12
      n.direct).Passes blocks (blocks - directReach) :=
    Walk.passes_fitEach (Walk.passes_fit 0) n.direct blocks
  have hremap : (n.remap blocks).Passes blocks 0 := by
    rw [remap_eq]
    refine hdirect.bind fun direct => Walk.Passes.bind (m := 0) ?_ fun below =>
      Walk.passes_pure _ id
    refine (Walk.passes_fit 1 n.single _).bind fun single => ?_
    exact (Walk.passes_fit 2 n.double _).bind fun double => Walk.passes_pure _ fun _ => rfl
  exact hremap {} [] (accounts_empty blocks)

end Inode

/-- The journal has all that changed from `e` to `e'`, so undoing it brings back what `e` had. -/
structure Journal.Covers (j : Journal) (e e' : Engine RamDisk) : Prop where
  free : ∀ s ∈ j.allocated, e.map.bitmap.used? s.toNat = some false
  /-- No other bits have changed than those of the sectors taken. -/
  used : ∀ i, e'.map.bitmap.used? i =
    if i ∈ j.allocated.map UInt32.toNat then some true else e.map.bitmap.used? i
  /-- The index blocks are saved with what they held. -/
  saved : ∀ entry ∈ j.overwritten, entry.2.toSector = e.store.content entry.1
  /-- No other bytes have changed than those of the sectors taken and of the index blocks
  saved. -/
  kept : ∀ s, s ∉ j.allocated → s ∉ j.overwritten.map Prod.fst →
    e'.store.content s = e.store.content s
  undone : ∃ e'', Engine.run j.undo e' = .ok () e'' ∧ e''.store.Coherent ∧
    e''.map.bitmap = e.map.bitmap ∧
    ∀ s, s ∉ j.allocated → e''.store.content s = e.store.content s

/-- A row of data blocks lacks nothing. -/
theorem Forest.lacking_map_data (sectors : List UInt32) (n : Nat) :
    lacking (sectors.map fun s => ⟨0, .data s⟩) n = 0 := by
  induction sectors generalizing n with
  | nil => rfl
  | cons s sectors ih => rw [List.map_cons, lacking_cons, Tree.lacking_data, ih]

namespace Inode

variable {n : Inode} {e : Engine RamDisk} {blocks : Nat}

/-- Where there are sectors enough the walk takes those that are lacking, and then returns those
that are not needed. -/
theorem exists_walk_of_supply (hcoherent : e.store.Coherent) (hready : Ready e.medium n.roots)
    (henough : (n.forest e.store.content).lacking blocks ≤ e.map.supply.length) :
    ∃ m j e', Engine.run (n.walk blocks) e = .ok (.ok m, j) e' ∧
      j.allocated = (e.map.supply.take ((n.forest e.store.content).lacking blocks)).reverse ∧
      e'.map.ledger = ((n.forest e.store.content).beyond blocks).reverse.map (.returned · 1) ++
        (j.allocated.map (.granted · 1) ++ e.map.ledger) := by
  obtain ⟨m, saved, d', hyields, hfitted⟩ := (refits_remap n blocks).fitted e.medium {} hready _ _
    (List.take_append_drop _ _).symm (List.length_take_of_le henough)
  obtain ⟨e', hrun, -, rfl⟩ := Engine.run_of_eval_ok hcoherent hyields
  refine ⟨m, _, e', hrun, List.append_nil _, ?_⟩
  change e'.medium.map.ledger = _
  rw [hfitted.map, FreeMap.ledger_takeBackAll, FreeMap.ledger_grantAll, List.append_nil,
    List.map_reverse, List.map_reverse]
  rfl

/-- Where there are not, it takes all there are, and its journal covers what it has done. -/
theorem exists_walk_of_lacking (hcoherent : e.store.Coherent) (hready : Ready e.medium n.roots)
    (hfew : e.map.supply.length < (n.forest e.store.content).lacking blocks) :
    ∃ j e', Engine.run (n.walk blocks) e = .ok (.error .noSpace, j) e' ∧
      j.allocated = e.map.supply.reverse ∧ j.Covers e e' := by
  obtain ⟨saved, d', hyields, htouched, hmap⟩ :=
    (refits_remap n blocks).refused e.medium {} hready hfew
  rw [List.append_nil, List.append_nil] at hyields
  obtain ⟨e', hrun, hcoherent', rfl⟩ := Engine.run_of_eval_ok hcoherent hyields
  obtain ⟨d'', hundo, hsize, hmap', hkept⟩ := Journal.eval_undo hready htouched hmap
  obtain ⟨e'', hrun', hcoherent'', rfl⟩ := Engine.run_of_eval_ok hcoherent' hundo
  have hundone : Undone e.medium e''.medium := ⟨hsize, by rw [hmap', hmap], hkept⟩
  have hfree : ∀ s ∈ e.medium.map.supply, e.medium.map.bitmap.used? s.toNat = some false :=
    fun s hs => FreeMap.mem_supply hready.within hs
  refine ⟨_, e', hrun, rfl, ?_⟩
  exact {
    free := fun s hs => hfree s (List.mem_reverse.1 hs)
    used := fun i => by
      change e'.medium.map.bitmap.used? i = _
      rw [hmap, List.map_reverse]
      simp only [List.mem_reverse]
      exact FreeMap.used?_grantAll (fun s hs => by rw [hfree s hs]; rfl) i
    saved := htouched.saved_eq
    kept := fun s hs hsaved => htouched.kept s (fun hmem => hs (List.mem_reverse.2 hmem)) hsaved
    undone := ⟨e'', hrun', hcoherent'', hundone.bitmap hready.within,
      fun s hs => hkept s fun hmem => hs (List.mem_reverse.2 hmem)⟩
  }

/-- A walk makes all its requests for sectors before it returns the first one, whatever the index
blocks hold and on every device. In the end the requests are those for the sectors in the journal
and the returns behind them; after a refusal there are no returns. Where the blocks of the file
are different sectors in use, the walk is refused only for want of sectors, and the journal of a
refused walk is complete. -/
theorem takes_come_before_returns (n : Inode) (length : Nat) :
    (∀ (D : Type) [BlockDevice D] (e : Engine D), ∃ made,
      (stateAfter (Engine.run (n.walk (dataBlocks length))) e).map.ledger = made ++ e.map.ledger ∧
      AsksFirst made ∧
      (∀ m j e', Engine.run (n.walk (dataBlocks length)) e = .ok (.ok m, j) e' →
        ∃ returned : List UInt32,
          made = returned.map (.returned · 1) ++ j.allocated.map (.granted · 1)) ∧
      ∀ refusal j e', Engine.run (n.walk (dataBlocks length)) e = .ok (.error refusal, j) e' →
        made = .refused 1 :: j.allocated.map (.granted · 1)) ∧
    ∀ e : Engine RamDisk, e.store.Coherent → Ready e.medium n.roots →
      ((n.forest e.store.content).lacking (dataBlocks length) ≤ e.map.supply.length →
        ∃ m j e', Engine.run (n.walk (dataBlocks length)) e = .ok (.ok m, j) e' ∧
          j.allocated = (e.map.supply.take
            ((n.forest e.store.content).lacking (dataBlocks length))).reverse ∧
          e'.map.ledger =
            ((n.forest e.store.content).beyond (dataBlocks length)).reverse.map (.returned · 1) ++
              (j.allocated.map (.granted · 1) ++ e.map.ledger)) ∧
      (e.map.supply.length < (n.forest e.store.content).lacking (dataBlocks length) →
        ∃ j e', Engine.run (n.walk (dataBlocks length)) e = .ok (.error .noSpace, j) e' ∧
          j.allocated = e.map.supply.reverse ∧ j.Covers e e') := by
  refine ⟨fun D _ e => ?_, fun e hcoherent hready => ?_⟩
  · have henters : Engine.Enters (D := D) e.map.ledger (Closes 0)
        (Engine.run (n.walk (dataBlocks length))) [] :=
      Engine.enters_run (n.orderly_walk (dataBlocks length)) asksFirst_nil
    obtain ⟨made, hledger, hordered, hend⟩ := henters e rfl
    refine ⟨made, hledger, hordered, fun m j e' hrun => ?_, fun refusal j e' hrun => ?_⟩
    · obtain ⟨returned, hmade, -⟩ := hend (.ok m, j) e' hrun
      exact ⟨returned, hmade⟩
    · exact hend (.error refusal, j) e' hrun
  · exact ⟨exists_walk_of_supply hcoherent hready, exists_walk_of_lacking hcoherent hready⟩

/-- Twelve blocks long, and the first of them is missing. It has an index block with null pointers
only. -/
def ragged : Inode :=
  { blank false with
    length := 6144, direct := #v[0, 2, 3, 4, 5, 6, 7, 8, 9, 10, 11, 12], single := 13 }

/-- Sixteen sectors, of which the last two are free, and one of these is to be had. -/
def raggedDisk : Engine RamDisk where
  store := ⟨Cache.empty 1 Nat.one_pos, Metered.ofDevice
    ⟨(Array.replicate 16 Sector.zero).set 13 (IndexBlock.toSector (Vector.replicate 128 0))⟩⟩
  map := { bitmap := Bitmap.assignFrom true 14 0 (Bitmap.blank 16), quota := some 1 }

theorem forest_ragged : ragged.forest raggedDisk.store.content =
    ⟨0, .hole⟩ :: [2, 3, 4, 5, 6, 7, 8, 9, 10, 11, 12].map (fun s => ⟨0, .data s⟩) ++
      [⟨1, .index 13 fun _ => .hole⟩, ⟨2, .hole⟩] := by
  have hblock : raggedDisk.store.content 13 = IndexBlock.toSector (Vector.replicate 128 0) := by
    refine (Cached.content_empty 1 (by decide) _ 13).trans ?_
    simp [Metered.ofDevice]
  have hdirect : SectorVolume.forest raggedDisk.store.content (row 0 ragged.direct) =
      ⟨0, .hole⟩ :: [2, 3, 4, 5, 6, 7, 8, 9, 10, 11, 12].map fun s => ⟨0, .data s⟩ := rfl
  have hbelow :
      ∀ k, tree raggedDisk.store.content 0 ((Vector.replicate 128 0).get k) = .hole := by
    intro k
    have hnull : (Vector.replicate 128 (0 : UInt32)).get k = 0 := Vector.getElem_replicate k.isLt
    rw [hnull, tree_null]
  rw [forest_eq, show ragged.single = 13 from rfl, show ragged.double = 0 from rfl,
    tree_succ_of_ne _ _ (by decide), hblock, IndexBlock.ofSector_toSector, tree_null,
    funext hbelow, hdirect]

theorem ready_ragged : Ready raggedDisk.medium ragged.roots := by
  have hsectors : (SectorVolume.forest raggedDisk.medium.content ragged.roots).sectors =
      [2, 3, 4, 5, 6, 7, 8, 9, 10, 11, 12, 13] := by
    change (ragged.forest raggedDisk.store.content).sectors = _
    rw [forest_ragged]
    decide +kernel
  have hbelow : ∀ s ∈ (SectorVolume.forest raggedDisk.medium.content ragged.roots).sectors,
      s.toNat < 14 := by
    rw [hsectors]
    simp
  have hsize : raggedDisk.medium.size = 16 := rfl
  have hfree : ∀ i < 64, raggedDisk.map.bitmap.used? i = some false → 0 < i ∧ i < 16 := by
    decide +kernel
  have hused : ∀ i < 14, raggedDisk.map.bitmap.used? i = some true := by
    decide +kernel
  exact {
    within := fun i hi => by
      have hlt : i < 64 := Bitmap.used?_isSome_iff_lt.1 (by rw [hi]; rfl)
      have h := hfree i hlt hi
      have hlimit : UInt32.size = 4294967296 := rfl
      exact ⟨h.1, h.2, by omega⟩
    nodup := by
      rw [hsectors]
      decide
    exists_sector := fun s hs => by
      rw [hsize]
      exact Nat.lt_trans (hbelow s hs) (by decide)
    used := fun s hs => hused s.toNat (hbelow s hs)
  }

theorem lacking_ragged {n : Nat} (h : n ≤ 140) :
    (ragged.forest raggedDisk.store.content).lacking n = (if n = 0 then 0 else 1) + (n - 12) := by
  have hspan : Forest.span (⟨0, .hole⟩ ::
      [2, 3, 4, 5, 6, 7, 8, 9, 10, 11, 12].map fun s => ⟨0, .data s⟩) = 12 := rfl
  have hbehind : n - 12 - SectorVolume.span 1 = 0 := by
    rw [span_one]
    omega
  rw [forest_ragged, Forest.lacking_append, hspan, Forest.lacking_cons, Tree.lacking_hole_zero,
    Forest.lacking_map_data, Forest.lacking_cons, Tree.lacking_index, Forest.ofBelow,
    Forest.lacking_data_holes, hbehind, Forest.lacking_zero]
  omega

theorem beyond_ragged : (ragged.forest raggedDisk.store.content).beyond 1 =
    [2, 3, 4, 5, 6, 7, 8, 9, 10, 11, 12, 13] := by
  rw [forest_ragged]
  decide +kernel

/-- One sector is to be had. With a single block it goes to the hole, and then all other blocks
and the index block are returned. With thirteen it goes to the hole as well, and the request for
the last block is refused before anything is returned. -/
theorem ragged_takes_before_it_returns :
    (∃ m j e', Engine.run (ragged.walk (dataBlocks 512)) raggedDisk = .ok (.ok m, j) e' ∧
      e'.map.ledger =
        ([13, 12, 11, 10, 9, 8, 7, 6, 5, 4, 3, 2] : List UInt32).map (.returned · 1) ++
        [.granted 14 1]) ∧
    ∃ j e', Engine.run (ragged.walk (dataBlocks 6656)) raggedDisk = .ok (.error .noSpace, j) e' ∧
      e'.map.ledger = [.refused 1, .granted 14 1] ∧ j.Covers raggedDisk e' := by
  have hcoherent : raggedDisk.store.Coherent := Cached.coherent_empty 1 (by decide) _
  have hspace : raggedDisk.map.supply = [14] := by decide +kernel
  have hone : dataBlocks 512 = 1 := by decide
  have hmany : dataBlocks 6656 = 13 := by decide
  refine ⟨?_, ?_⟩
  · obtain ⟨m, j, e', hrun, htaken, hledger⟩ :=
      ((takes_come_before_returns ragged 512).2 raggedDisk hcoherent ready_ragged).1 (by
        rw [hspace, hone, lacking_ragged (by decide)]
        decide)
    refine ⟨m, j, e', hrun, ?_⟩
    rw [hledger, htaken, hspace, hone, lacking_ragged (by decide), beyond_ragged]
    rfl
  · obtain ⟨j, e', hrun, htaken, hcovers⟩ :=
      ((takes_come_before_returns ragged 6656).2 raggedDisk hcoherent ready_ragged).2 (by
        rw [hspace, hmany, lacking_ragged (by decide)]
        decide)
    obtain ⟨made, hledger, -, -, hrefused⟩ :=
      (takes_come_before_returns ragged 6656).1 _ raggedDisk
    rw [stateAfter_of_ok hrun, hrefused _ _ _ hrun, htaken, hspace] at hledger
    exact ⟨j, e', hrun, hledger, hcovers⟩

end Inode

end SectorVolume
