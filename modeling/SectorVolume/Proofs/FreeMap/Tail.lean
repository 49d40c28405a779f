import SectorVolume.FreeMap.Step
import SectorVolume.Proofs.FreeMap.Supply
import Mathlib.Data.List.Perm.Subperm

/-!
The bits behind the last sector. They are set from the start, so that a search by groups finds
only sectors of the disk; no request clears them and no reservation can be made on them. Sectors
that come back are only checked for being in use, and these are: a return that reaches behind the
last sector clears bits there, and the next requests hand out sectors that the disk does not have.
-/

namespace SectorVolume

namespace Bitmap

theorem assign_of_used?_eq_none {b : Bitmap} {i : Nat} (h : b.used? i = none) (used : Bool) :
    b.assign i used = b := by
  have hout : b.groups.size ≤ i / groupBits := by simpa [used?] using h
  refine Bitmap.ext (x := b.assign i used) (y := b) rfl ?_
  apply Array.ext_getElem?
  intro g
  rw [assign, Array.getElem?_modify]
  by_cases hg : i / groupBits = g
  · rw [if_pos hg, ← hg, Array.getElem?_eq_none hout, Option.map_none]
  · rw [if_neg hg]

theorem used?_assign_of_ne (b : Bitmap) {i j : Nat} (used : Bool) (h : j ≠ i) :
    (b.assign i used).used? j = b.used? j := by
  cases hi : b.used? i with
  | none => rw [assign_of_used?_eq_none hi]
  | some _ => rw [used?_assign b i j used (by rw [hi]; rfl), if_neg h]

theorem used?_assign_true {b : Bitmap} {i : Nat} (h : b.used? i = some true) (j : Nat) :
    (b.assign j true).used? i = some true := by
  by_cases hij : i = j
  · rw [used?_assign b j i true (by rw [← hij, h]; rfl), if_pos hij]
  · rw [used?_assign_of_ne b true hij, h]

@[simp] theorem capacity_assignFrom (used : Bool) (count start : Nat) (b : Bitmap) :
    (assignFrom used count start b).capacity = b.capacity := by
  induction count generalizing start b with
  | zero => rfl
  | succ count ih => rw [assignFrom, ih, capacity_assign]

theorem used?_assignFrom_true {b : Bitmap} {i : Nat} (h : b.used? i = some true)
    (count start : Nat) : (assignFrom true count start b).used? i = some true := by
  induction count generalizing start b with
  | zero => exact h
  | succ count ih => exact ih (used?_assign_true h start) (start + 1)

theorem reserveFrom_cons_of_ok {count start : Nat} {b b' : Bitmap}
    (h : reserveFrom (count + 1) start b = .ok b') :
    reserveFrom count (start + 1) (b.assign start true) = .ok b' := by
  rw [reserveFrom, isUsed] at h
  cases hused : b.used? start with
  | none => simp [hused, bind, Except.bind] at h
  | some used =>
    cases used with
    | true => simp [hused, bind, Except.bind, throw, throwThe, MonadExceptOf.throw] at h
    | false => simpa [hused, bind, Except.bind] using h

theorem releaseFrom_cons_of_ok {count start : Nat} {b b' : Bitmap}
    (h : releaseFrom (count + 1) start b = .ok b') :
    releaseFrom count (start + 1) (b.assign start false) = .ok b' := by
  rw [releaseFrom, isUsed] at h
  cases hused : b.used? start with
  | none => simp [hused, bind, Except.bind] at h
  | some used =>
    cases used with
    | true => simpa [hused, bind, Except.bind] using h
    | false => simp [hused, bind, Except.bind, throw, throwThe, MonadExceptOf.throw] at h

/-- What is in use stays so when other sectors are set aside. -/
theorem used?_of_reserveFrom {count start i : Nat} {b b' : Bitmap}
    (h : reserveFrom count start b = .ok b') (hset : b.used? i = some true) :
    b'.used? i = some true := by
  induction count generalizing start b with
  | zero =>
    cases h
    exact hset
  | succ count ih => exact ih (reserveFrom_cons_of_ok h) (used?_assign_true hset start)

/-- What is in use stays so when other sectors come back. -/
theorem used?_of_releaseFrom {count start i : Nat} {b b' : Bitmap}
    (h : releaseFrom count start b = .ok b') (hset : b.used? i = some true)
    (hout : ¬ (start ≤ i ∧ i < start + count)) : b'.used? i = some true := by
  induction count generalizing start b with
  | zero =>
    cases h
    exact hset
  | succ count ih =>
    refine ih (releaseFrom_cons_of_ok h) ?_ (by omega)
    rw [used?_assign_of_ne b false (by omega), hset]

theorem capacity_of_reserveFrom {count start : Nat} {b b' : Bitmap}
    (h : reserveFrom count start b = .ok b') : b'.capacity = b.capacity := by
  induction count generalizing start b with
  | zero => cases h; rfl
  | succ count ih => rw [ih (reserveFrom_cons_of_ok h), capacity_assign]

theorem capacity_of_releaseFrom {count start : Nat} {b b' : Bitmap}
    (h : releaseFrom count start b = .ok b') : b'.capacity = b.capacity := by
  induction count generalizing start b with
  | zero => cases h; rfl
  | succ count ih => rw [ih (releaseFrom_cons_of_ok h), capacity_assign]

theorem reserveFrom_of_reserve {b b' : Bitmap} {sector : UInt32} {count : Nat}
    (h : b.reserve sector count = .ok b') : reserveFrom count sector.toNat b = .ok b' := by
  rw [reserve] at h
  cases hadd : checkedAdd sector.toNat count with
  | error _ => simp [hadd, bind, Except.bind] at h
  | ok _ => simpa [hadd, bind, Except.bind] using h

theorem releaseFrom_of_release {b b' : Bitmap} {sector : UInt32} {count : Nat}
    (h : b.release sector count = .ok b') : releaseFrom count sector.toNat b = .ok b' := by
  rw [release] at h
  cases hadd : checkedAdd sector.toNat count with
  | error _ => simp [hadd, bind, Except.bind] at h
  | ok _ => simpa [hadd, bind, Except.bind] using h

theorem exists_of_alloc_eq_some {b b' : Bitmap} {count : Nat} {first : UInt32}
    (h : b.alloc count = (some first, b')) :
    ∃ start, (if count = 1 then b.firstFree? else b.firstRun? count) = some start ∧
      first = UInt32.ofNat start ∧ b' = assignFrom true count start b := by
  rw [alloc] at h
  split at h
  · next start hstart =>
    rw [Prod.mk.injEq, Option.some.injEq] at h
    exact ⟨start, hstart, h.1.symm, h.2.symm⟩
  · simp at h

theorem eq_of_alloc_eq_none {b b' : Bitmap} {count : Nat} (h : b.alloc count = (none, b')) :
    b' = b := by
  rw [alloc] at h
  split at h
  · simp at h
  · cases h
    rfl

/-- A run is looked for among the sectors only. -/
theorem add_le_of_findRunFrom {b : Bitmap} {count rest start first : Nat}
    (h : findRunFrom b count rest start = some first) (hrest : rest ≤ b.capacity)
    (hstart : start ≤ b.capacity - rest) : first + count ≤ b.capacity := by
  induction rest generalizing start with
  | zero => simp [findRunFrom] at h
  | succ rest ih =>
    rw [findRunFrom] at h
    split at h
    · exact ih h (by omega) (by omega)
    · split at h
      · cases h
        omega
      · exact ih h (by omega) (by omega)

/-- No run of several sectors reaches behind the last one, whatever the bits there are. -/
theorem add_le_of_alloc_of_ne_one {b b' : Bitmap} {count : Nat} {first : UInt32}
    (h : b.alloc count = (some first, b')) (hcount : count ≠ 1) :
    first.toNat + count ≤ b.capacity := by
  obtain ⟨start, hstart, rfl, -⟩ := exists_of_alloc_eq_some h
  rw [if_neg hcount] at hstart
  have hle := add_le_of_findRunFrom hstart (Nat.le_refl _) (by omega)
  have hmod : (UInt32.ofNat start).toNat ≤ start := Nat.mod_le _ _
  omega

/-- Behind the last sector no bit is clear. -/
def TailSet (b : Bitmap) : Prop := ∀ i, b.capacity ≤ i → b.used? i ≠ some false

theorem TailSet.add_le_of_alloc {b b' : Bitmap} (hb : b.TailSet) {count : Nat} {first : UInt32}
    (h : b.alloc count = (some first, b')) : first.toNat + count ≤ b.capacity := by
  by_cases hcount : count = 1
  · obtain ⟨start, hstart, rfl, -⟩ := exists_of_alloc_eq_some h
    rw [if_pos hcount, firstFree?_eq_head?] at hstart
    have hfree := mem_clear.1 (List.mem_of_head? hstart)
    have hlt : start < b.capacity := Nat.lt_of_not_le fun hle => hb start hle hfree
    have hmod : (UInt32.ofNat start).toNat ≤ start := Nat.mod_le _ _
    omega
  · exact add_le_of_alloc_of_ne_one h hcount

theorem TailSet.freeCount_le {b : Bitmap} (hb : b.TailSet) : b.freeCount ≤ b.capacity := by
  have hsub : b.clear ⊆ List.range b.capacity := by
    intro i hi
    rw [List.mem_range]
    exact Nat.lt_of_not_le fun hle => hb i hle (mem_clear.1 hi)
  have hle := (List.subperm_of_subset b.nodup_clear hsub).length_le
  rwa [List.length_range, ← freeCount_eq_length] at hle

end Bitmap

namespace FreeMap

theorem alloc_of_quota_eq_zero {m : FreeMap} (h : m.quota = some 0) (count : Nat) :
    m.alloc count = (none, { m with ledger := .refused count :: m.ledger }) := by
  obtain ⟨b, quota, ledger⟩ := m
  cases h
  rfl

theorem alloc_of_quota_ne_zero {m : FreeMap} (h : m.quota ≠ some 0) (count : Nat) :
    (m.alloc count).1 = (m.bitmap.alloc count).1 ∧
      (m.alloc count).2.bitmap = (m.bitmap.alloc count).2 := by
  obtain ⟨b, quota, ledger⟩ := m
  cases halloc : b.alloc count with
  | mk found b' =>
    cases quota with
    | none => cases found <;> simp [alloc, halloc]
    | some q =>
      cases q with
      | zero => exact absurd rfl h
      | succ q => cases found <;> simp [alloc, halloc]

/-- A request is refused, and then no bit changes, or it is granted as the bitmap grants it. -/
theorem bitmap_of_alloc {m m' : FreeMap} {count : Nat} {r : Option UInt32}
    (h : m.alloc count = (r, m')) :
    (r = none ∧ m'.bitmap = m.bitmap) ∨
    ∃ first, r = some first ∧ m.bitmap.alloc count = (some first, m'.bitmap) := by
  by_cases hquota : m.quota = some 0
  · rw [alloc_of_quota_eq_zero hquota] at h
    cases h
    exact Or.inl ⟨rfl, rfl⟩
  · obtain ⟨hfound, hbitmap⟩ := alloc_of_quota_ne_zero hquota count
    rw [h] at hfound hbitmap
    have halloc : m.bitmap.alloc count = (r, m'.bitmap) := Prod.ext hfound.symm hbitmap.symm
    cases r with
    | none => exact Or.inl ⟨rfl, Bitmap.eq_of_alloc_eq_none halloc⟩
    | some first => exact Or.inr ⟨first, rfl, halloc⟩

theorem bitmap_of_release {m m' : FreeMap} {sector : UInt32} {count : Nat}
    (h : m.release sector count = .ok m') : m.bitmap.release sector count = .ok m'.bitmap := by
  rw [release] at h
  cases hrelease : m.bitmap.release sector count with
  | error _ => simp [hrelease, bind, Except.bind] at h
  | ok b =>
    simp only [hrelease, bind, Except.bind, pure, Except.pure, Except.ok.injEq] at h
    rw [← h]

theorem bitmap_of_reserve {m m' : FreeMap} {sector : UInt32} {count : Nat}
    (h : m.reserve sector count = .ok m') : m.bitmap.reserve sector count = .ok m'.bitmap := by
  rw [reserve] at h
  cases hreserve : m.bitmap.reserve sector count with
  | error _ => simp [hreserve, bind, Except.bind] at h
  | ok b =>
    simp only [hreserve, bind, Except.bind, pure, Except.pure, Except.ok.injEq] at h
    rw [← h]

end FreeMap

namespace MapStep

/-- Whether a step gives a sector back. -/
def Returns (i : Nat) : MapStep → Prop
  | release sector count => sector.toNat ≤ i ∧ i < sector.toNat + count
  | _ => False

theorem of_change_eq_ok {f : FreeMap → Except Fault FreeMap} {m m' : FreeMap} {a : Answer}
    (h : change f m = .ok a m') : a = .done ∧ f m = .ok m' := by
  rw [change] at h
  split at h
  · next hf =>
    cases h
    exact ⟨rfl, hf⟩
  · cases h

/-- What a step that ends normally does to the bits. -/
theorem bitmap_of_run {step : MapStep} {m m' : FreeMap} {a : Answer}
    (h : step.run m = .ok a m') :
    (m'.bitmap = m.bitmap ∧ ∀ first, a ≠ .number? (some first)) ∨
    (∃ count first, step = alloc count ∧ m.bitmap.alloc count = (some first, m'.bitmap) ∧
      a = .number? (some first.toNat)) ∨
    (∃ sector count, step = reserve sector count ∧
      m.bitmap.reserve sector count = .ok m'.bitmap) ∨
    (∃ sector count, step = release sector count ∧
      m.bitmap.release sector count = .ok m'.bitmap) := by
  cases step with
  | alloc count =>
    have halloc : m.alloc count = ((m.alloc count).1, m') ∧
        a = .number? ((m.alloc count).1.map UInt32.toNat) := by
      cases h
      exact ⟨rfl, rfl⟩
    obtain ⟨hm, rfl⟩ := halloc
    obtain ⟨hnone, hsame⟩ | ⟨first, hsome, hgrant⟩ := FreeMap.bitmap_of_alloc hm
    · refine Or.inl ⟨hsame, fun first => ?_⟩
      simp [hnone]
    · refine Or.inr (Or.inl ⟨count, first, rfl, hgrant, ?_⟩)
      rw [hsome, Option.map_some]
  | release sector count =>
    rw [run] at h
    obtain ⟨-, hrelease⟩ := of_change_eq_ok h
    exact Or.inr (Or.inr (Or.inr ⟨sector, count, rfl, FreeMap.bitmap_of_release hrelease⟩))
  | reserve sector count =>
    rw [run] at h
    obtain ⟨-, hreserve⟩ := of_change_eq_ok h
    exact Or.inr (Or.inr (Or.inl ⟨sector, count, rfl, FreeMap.bitmap_of_reserve hreserve⟩))
  | limit quota =>
    rw [run] at h
    obtain ⟨rfl, hquota⟩ := of_change_eq_ok h
    cases hquota
    exact Or.inl ⟨rfl, fun _ => nofun⟩
  | isUsed sector =>
    simp only [run] at h
    split at h
    · cases h
      exact Or.inl ⟨rfl, fun _ => nofun⟩
    · cases h
  | freeCount | capacity | usedRuns | requests =>
    cases h
    exact Or.inl ⟨rfl, fun _ => nofun⟩

/-- Only a return clears a bit. -/
theorem used?_of_run {step : MapStep} {m m' : FreeMap} {a : Answer} {i : Nat}
    (h : step.run m = .ok a m') (hset : m.bitmap.used? i = some true) (hkept : ¬ step.Returns i) :
    m'.bitmap.used? i = some true := by
  obtain ⟨hsame, -⟩ | ⟨count, first, rfl, halloc, -⟩ | ⟨sector, count, rfl, hreserve⟩ |
    ⟨sector, count, rfl, hrelease⟩ := bitmap_of_run h
  · rw [hsame, hset]
  · obtain ⟨start, -, -, hassign⟩ := Bitmap.exists_of_alloc_eq_some halloc
    rw [hassign]
    exact Bitmap.used?_assignFrom_true hset count start
  · exact Bitmap.used?_of_reserveFrom (Bitmap.reserveFrom_of_reserve hreserve) hset
  · exact Bitmap.used?_of_releaseFrom (Bitmap.releaseFrom_of_release hrelease) hset hkept

theorem capacity_of_run {step : MapStep} {m m' : FreeMap} {a : Answer}
    (h : step.run m = .ok a m') : m'.bitmap.capacity = m.bitmap.capacity := by
  obtain ⟨hsame, -⟩ | ⟨count, first, rfl, halloc, -⟩ | ⟨sector, count, rfl, hreserve⟩ |
    ⟨sector, count, rfl, hrelease⟩ := bitmap_of_run h
  · rw [hsame]
  · obtain ⟨start, -, -, hassign⟩ := Bitmap.exists_of_alloc_eq_some halloc
    rw [hassign, Bitmap.capacity_assignFrom]
  · exact Bitmap.capacity_of_reserveFrom (Bitmap.reserveFrom_of_reserve hreserve)
  · exact Bitmap.capacity_of_releaseFrom (Bitmap.releaseFrom_of_release hrelease)

/-- A run that ends normally, taken apart at its first step. -/
theorem mapM_cons_of_ok {step : MapStep} {steps : List MapStep} {answers : List Answer}
    {m m' : FreeMap} (h : (step :: steps).mapM run m = .ok answers m') :
    ∃ a rest mid, step.run m = .ok a mid ∧ steps.mapM run mid = .ok rest m' ∧
      answers = a :: rest := by
  rw [List.mapM_cons] at h
  cases hstep : step.run m with
  | error _ _ => simp [bind, EStateM.bind, hstep] at h
  | ok a mid =>
    cases hrest : steps.mapM run mid with
    | error _ _ => simp [bind, EStateM.bind, hstep, hrest] at h
    | ok rest last =>
      simp only [bind, EStateM.bind, hstep, hrest, pure, EStateM.pure,
        EStateM.Result.ok.injEq] at h
      obtain ⟨rfl, rfl⟩ := h
      exact ⟨a, rest, mid, rfl, hrest, rfl⟩

theorem capacity_of_mapM {steps : List MapStep} {answers : List Answer} {m m' : FreeMap}
    (h : steps.mapM run m = .ok answers m') : m'.bitmap.capacity = m.bitmap.capacity := by
  induction steps generalizing m answers with
  | nil => cases h; rfl
  | cons step steps ih =>
    obtain ⟨a, rest, mid, hstep, hrest, rfl⟩ := mapM_cons_of_ok h
    rw [ih hrest, capacity_of_run hstep]

/-- A bit that is set stays so over every run that does not return its sector. -/
theorem used?_of_mapM {steps : List MapStep} {answers : List Answer} {m m' : FreeMap} {i : Nat}
    (h : steps.mapM run m = .ok answers m') (hset : m.bitmap.used? i = some true)
    (hkept : ∀ step ∈ steps, ¬ step.Returns i) : m'.bitmap.used? i = some true := by
  induction steps generalizing m answers with
  | nil =>
    cases h
    exact hset
  | cons step steps ih =>
    obtain ⟨a, rest, mid, hstep, hrest, rfl⟩ := mapM_cons_of_ok h
    obtain ⟨hkeptStep, hkeptRest⟩ := List.forall_mem_cons.1 hkept
    exact ih hrest (used?_of_run hstep hset hkeptStep) hkeptRest

theorem tailSet_of_mapM {steps : List MapStep} {answers : List Answer} {m m' : FreeMap}
    (h : steps.mapM run m = .ok answers m') (hb : m.bitmap.TailSet)
    (hkept : ∀ step ∈ steps, ∀ i, m.bitmap.capacity ≤ i → ¬ step.Returns i) :
    m'.bitmap.TailSet := by
  intro i hi
  rw [capacity_of_mapM h] at hi
  cases hused : m.bitmap.used? i with
  | none =>
    have hbit : (m'.bitmap.used? i).isSome = (m.bitmap.used? i).isSome := by
      rw [Bool.eq_iff_iff, Bitmap.used?_isSome_iff, Bitmap.used?_isSome_iff, capacity_of_mapM h]
    rw [hused] at hbit
    intro hfree
    simp [hfree] at hbit
  | some used =>
    have hset : m.bitmap.used? i = some true := by
      rw [hused, (Bool.eq_false_or_eq_true used).resolve_right fun e => hb i hi (e ▸ hused)]
    rw [used?_of_mapM h hset fun step hstep => hkept step hstep i hi]
    simp

/-- Every answer of a run was given at some moment of it. -/
theorem exists_moment {steps : List MapStep} {answers : List Answer} {m m' : FreeMap}
    {step : MapStep} {a : Answer} (h : steps.mapM run m = .ok answers m')
    (hmem : (step, a) ∈ steps.zip answers) :
    ∃ past future given mid mid', steps = past ++ step :: future ∧
      past.mapM run m = .ok given mid ∧ step.run mid = .ok a mid' := by
  induction steps generalizing m answers with
  | nil => simp at hmem
  | cons first steps ih =>
    obtain ⟨b, rest, next, hfirst, hrest, rfl⟩ := mapM_cons_of_ok h
    rw [List.zip_cons_cons, List.mem_cons, Prod.mk.injEq] at hmem
    obtain ⟨rfl, rfl⟩ | hmem := hmem
    · exact ⟨[], steps, [], m, next, rfl, rfl, hfirst⟩
    · obtain ⟨past, future, given, mid, mid', rfl, hpast, hstep⟩ := ih hrest hmem
      refine ⟨first :: past, future, b :: given, mid, mid', rfl, ?_, hstep⟩
      simp [List.mapM_cons, bind, EStateM.bind, hfirst, hpast, pure, EStateM.pure]

theorem alloc_of_run {m m' : FreeMap} {count first : Nat}
    (h : (alloc count).run m = .ok (.number? (some first)) m') :
    ∃ sector : UInt32, m.bitmap.alloc count = (some sector, m'.bitmap) ∧
    first = sector.toNat := by
  obtain ⟨-, hno⟩ | ⟨_, sector, heq, halloc, hfirst⟩ | ⟨_, _, heq, -⟩ | ⟨_, _, heq, -⟩ :=
    bitmap_of_run h
  · exact absurd rfl (hno first)
  · cases heq
    cases hfirst
    exact ⟨sector, halloc, rfl⟩
  · cases heq
  · cases heq

/-- What was granted in a run was granted by the bitmap that there was then. -/
theorem exists_grant {steps : List MapStep} {answers : List Answer} {m m' : FreeMap}
    {count first : Nat} (h : steps.mapM run m = .ok answers m')
    (hmem : (alloc count, .number? (some first)) ∈ steps.zip answers) :
    ∃ (past : List MapStep) (given : List Answer) (mid : FreeMap) (sector : UInt32) (b : Bitmap),
      past ⊆ steps ∧ past.mapM run m = .ok given mid ∧
      mid.bitmap.alloc count = (some sector, b) ∧ first = sector.toNat := by
  obtain ⟨past, future, given, mid, mid', rfl, hpast, hstep⟩ := exists_moment h hmem
  obtain ⟨sector, halloc, hfirst⟩ := alloc_of_run hstep
  exact ⟨past, given, mid, sector, mid'.bitmap, List.subset_append_left _ _, hpast, halloc,
    hfirst⟩

/-- A return is carried out wherever the bit lies, and its sector is the next one to be handed out
if there is no other. -/
theorem exists_run_release {m : FreeMap} {sector : UInt32}
    (h : m.bitmap.used? sector.toNat = some true) :
    ∃ m', (release sector 1).run m = .ok .done m' ∧
      m'.bitmap.used? sector.toNat = some false ∧
      m'.bitmap.freeCount = m.bitmap.freeCount + 1 ∧
      (m.bitmap.freeCount = 0 → (m'.bitmap.alloc 1).1 = some sector) := by
  have hcleared : (m.bitmap.assign sector.toNat false).used? sector.toNat = some false := by
    rw [Bitmap.used?_assign _ _ _ _ (by rw [h]; rfl), if_pos rfl]
  have hcount := Bitmap.freeCount_assign_false h
  refine ⟨m.takeBack sector, ?_, hcleared, hcount, fun hnone => ?_⟩
  · rw [run, change, FreeMap.release_of_used h]
  · have hone : (m.bitmap.assign sector.toNat false).clear = [sector.toNat] := by
      rw [hnone, Bitmap.freeCount_eq_length] at hcount
      obtain ⟨i, hi⟩ := List.length_eq_one_iff.1 hcount
      have hmem := Bitmap.mem_clear.2 hcleared
      rw [hi, List.mem_singleton] at hmem
      rw [hi, hmem]
    simp [FreeMap.takeBack, Bitmap.alloc, Bitmap.firstFree?_eq_head?, hone]

end MapStep

theorem Bitmap.tailSet_blank (capacity : Nat) : (Bitmap.blank capacity).TailSet := by
  intro i hi hfree
  exact Nat.not_lt.2 hi (Bitmap.used?_blank_eq_some_false.1 hfree)

/-- Over every run on a new map the bits behind the last sector stay set, but for those that a
return reaches. As long as no return reaches behind the last sector, no request is granted a
sector there and no more sectors are free than there are; a request for several sectors stays
below the end in any case. A return is not held back: wherever a bit behind the end is set, it is
cleared, counts as a free sector and is handed out when no other sector is free. -/
theorem FreeMap.tail_is_set_until_returned {capacity : Nat} {steps : List MapStep}
    {answers : List Answer} {m : FreeMap}
    (hrun : steps.mapM MapStep.run (ofBitmap (Bitmap.blank capacity)) = .ok answers m) :
    (∀ i, capacity ≤ i → i < groupBits * ((capacity + (groupBits - 1)) / groupBits) →
      (∀ step ∈ steps, ¬ step.Returns i) → m.bitmap.used? i = some true) ∧
    ((∀ step ∈ steps, ∀ i, capacity ≤ i → ¬ step.Returns i) →
      m.bitmap.freeCount ≤ capacity ∧
      ∀ count first, (.alloc count, .number? (some first)) ∈ steps.zip answers →
        first + count ≤ capacity) ∧
    (∀ count first, (.alloc count, .number? (some first)) ∈ steps.zip answers → count ≠ 1 →
      first + count ≤ capacity) ∧
    (∀ sector : UInt32, capacity ≤ sector.toNat → m.bitmap.used? sector.toNat = some true →
      ∃ m', (MapStep.release sector 1).run m = .ok .done m' ∧
        m'.bitmap.used? sector.toNat = some false ∧
        m'.bitmap.freeCount = m.bitmap.freeCount + 1 ∧
        (m.bitmap.freeCount = 0 → (m'.bitmap.alloc 1).1 = some sector)) := by
  have hblank := Bitmap.tailSet_blank capacity
  refine ⟨?_, ?_, ?_, fun sector _ hset => MapStep.exists_run_release hset⟩
  · intro i hle hlt hkept
    have hbit : i / groupBits < (capacity + (groupBits - 1)) / groupBits :=
      Nat.div_lt_of_lt_mul hlt
    have hset : (Bitmap.blank capacity).used? i = some true := by
      rw [Bitmap.used?_blank hbit, decide_eq_true hle]
    exact MapStep.used?_of_mapM hrun hset hkept
  · intro hkept
    constructor
    · have hle := (MapStep.tailSet_of_mapM hrun hblank hkept).freeCount_le
      rwa [MapStep.capacity_of_mapM hrun] at hle
    · intro count first hmem
      obtain ⟨past, given, mid, sector, b, hsub, hpast, halloc, rfl⟩ :=
        MapStep.exists_grant hrun hmem
      have htail := MapStep.tailSet_of_mapM hpast hblank fun step hstep => hkept step (hsub hstep)
      have hle := htail.add_le_of_alloc halloc
      rwa [MapStep.capacity_of_mapM hpast] at hle
  · intro count first hmem hcount
    obtain ⟨past, given, mid, sector, b, -, hpast, halloc, rfl⟩ := MapStep.exists_grant hrun hmem
    have hle := Bitmap.add_le_of_alloc_of_ne_one halloc hcount
    rwa [MapStep.capacity_of_mapM hpast] at hle

/-- Three sectors, all of them handed out: sector 3 can be returned and is handed out next. -/
theorem FreeMap.sector_behind_the_last_is_granted :
    ∃ m m', [MapStep.alloc 1, .alloc 2].mapM MapStep.run (ofBitmap (Bitmap.blank 3)) =
        .ok [.number? (some 0), .number? (some 1)] m ∧
      m.bitmap.used? 3 = some true ∧ m.bitmap.freeCount = 0 ∧
      (MapStep.release 3 1).run m = .ok .done m' ∧ m'.bitmap.used? 3 = some false ∧
      m'.bitmap.freeCount = 1 ∧ (m'.bitmap.alloc 1).1 = some 3 := by
  have hone : (Bitmap.blank 3).alloc 1 = (some 0, (Bitmap.blank 3).assign 0 true) := by
    have hfound : (Bitmap.blank 3).firstFree? = some 0 := by decide +kernel
    simp [Bitmap.alloc, hfound, Bitmap.assignFrom]
  have htwo : ((Bitmap.blank 3).assign 0 true).alloc 2 =
      (some 1, Bitmap.assignFrom true 2 1 ((Bitmap.blank 3).assign 0 true)) := by
    have hfound : ((Bitmap.blank 3).assign 0 true).firstRun? 2 = some 1 := by decide +kernel
    simp [Bitmap.alloc, hfound]
  obtain ⟨m, hrun, hbitmap⟩ : ∃ m, [MapStep.alloc 1, .alloc 2].mapM MapStep.run
      (ofBitmap (Bitmap.blank 3)) = .ok [.number? (some 0), .number? (some 1)] m ∧
      m.bitmap = Bitmap.assignFrom true 2 1 ((Bitmap.blank 3).assign 0 true) := by
    simp [List.mapM_cons, MapStep.run, alloc, ofBitmap, hone, htwo, bind, EStateM.bind, pure,
      EStateM.pure]
  have hnone : m.bitmap.freeCount = 0 := by
    rw [hbitmap]
    decide +kernel
  obtain ⟨htail, -, -, hreturn⟩ := tail_is_set_until_returned hrun
  have hset : m.bitmap.used? 3 = some true :=
    htail 3 (by decide) (by decide) (by simp [MapStep.Returns])
  obtain ⟨m', hrelease, hclear, hcount, hnext⟩ := hreturn 3 (by decide) hset
  rw [hnone] at hcount
  exact ⟨m, m', hrun, hset, hnone, hrelease, hclear, hcount, hnext hnone⟩

end SectorVolume
