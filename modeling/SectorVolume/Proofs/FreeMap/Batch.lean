import SectorVolume.Proofs.FreeMap.Supply

/-!
Several single sectors at once: what handing out and taking back a list of sectors does to the
bits, to the number of free sectors, to the supply and to the ledger. Taking back what was handed
out gives the bitmap there was before.
-/

namespace SectorVolume

namespace Bitmap

theorem used?_isSome_assign (b : Bitmap) (i j : Nat) (used : Bool) :
    ((b.assign i used).used? j).isSome = (b.used? j).isSome := by
  rw [Bool.eq_iff_iff, used?_isSome_iff, used?_isSome_iff]
  exact Iff.rfl

end Bitmap

namespace FreeMap

def grantAll (m : FreeMap) (taken : List UInt32) : FreeMap := taken.foldl grant m

def takeBackAll (m : FreeMap) (returned : List UInt32) : FreeMap := returned.foldl takeBack m

@[simp] theorem grantAll_nil (m : FreeMap) : m.grantAll [] = m := rfl

@[simp] theorem grantAll_cons (m : FreeMap) (s : UInt32) (taken : List UInt32) :
    m.grantAll (s :: taken) = (m.grant s).grantAll taken := rfl

@[simp] theorem takeBackAll_nil (m : FreeMap) : m.takeBackAll [] = m := rfl

@[simp] theorem takeBackAll_cons (m : FreeMap) (s : UInt32) (returned : List UInt32) :
    m.takeBackAll (s :: returned) = (m.takeBack s).takeBackAll returned := rfl

theorem grantAll_append (m : FreeMap) (xs ys : List UInt32) :
    m.grantAll (xs ++ ys) = (m.grantAll xs).grantAll ys := List.foldl_append

theorem takeBackAll_append (m : FreeMap) (xs ys : List UInt32) :
    m.takeBackAll (xs ++ ys) = (m.takeBackAll xs).takeBackAll ys := List.foldl_append

theorem used?_grant {m : FreeMap} {s : UInt32} (h : (m.bitmap.used? s.toNat).isSome)
    (t : UInt32) :
    (m.grant s).bitmap.used? t.toNat = if t = s then some true else m.bitmap.used? t.toNat := by
  simp only [grant, Bitmap.used?_assign _ _ _ _ h, UInt32.toNat_inj]

theorem used?_takeBack {m : FreeMap} {s : UInt32} (h : (m.bitmap.used? s.toNat).isSome)
    (t : UInt32) :
    (m.takeBack s).bitmap.used? t.toNat =
      if t = s then some false else m.bitmap.used? t.toNat := by
  simp only [takeBack, Bitmap.used?_assign _ _ _ _ h, UInt32.toNat_inj]

theorem isSome_used?_grantAll (taken : List UInt32) (m : FreeMap) (i : Nat) :
    ((m.grantAll taken).bitmap.used? i).isSome = (m.bitmap.used? i).isSome := by
  induction taken generalizing m with
  | nil => rfl
  | cons s taken ih =>
    rw [grantAll_cons, ih]
    exact Bitmap.used?_isSome_assign _ _ _ _

theorem used?_grantAll {taken : List UInt32} {m : FreeMap}
    (h : ∀ s ∈ taken, (m.bitmap.used? s.toNat).isSome) (i : Nat) :
    (m.grantAll taken).bitmap.used? i =
      if i ∈ taken.map UInt32.toNat then some true else m.bitmap.used? i := by
  induction taken generalizing m with
  | nil => simp
  | cons s taken ih =>
    have hs := h s List.mem_cons_self
    rw [grantAll_cons, ih fun t ht => by
      rw [grant, Bitmap.used?_isSome_assign]
      exact h t (List.mem_cons_of_mem _ ht)]
    simp only [grant, Bitmap.used?_assign _ _ _ _ hs, List.map_cons, List.mem_cons]
    by_cases hi : i ∈ taken.map UInt32.toNat
    · rw [if_pos hi, if_pos (Or.inr hi)]
    · by_cases his : i = s.toNat <;> simp [hi, his]

theorem used?_takeBackAll {returned : List UInt32} {m : FreeMap}
    (h : ∀ s ∈ returned, (m.bitmap.used? s.toNat).isSome) (i : Nat) :
    (m.takeBackAll returned).bitmap.used? i =
      if i ∈ returned.map UInt32.toNat then some false else m.bitmap.used? i := by
  induction returned generalizing m with
  | nil => simp
  | cons s returned ih =>
    have hs := h s List.mem_cons_self
    rw [takeBackAll_cons, ih fun t ht => by
      rw [takeBack, Bitmap.used?_isSome_assign]
      exact h t (List.mem_cons_of_mem _ ht)]
    simp only [takeBack, Bitmap.used?_assign _ _ _ _ hs, List.map_cons, List.mem_cons]
    by_cases hi : i ∈ returned.map UInt32.toNat
    · rw [if_pos hi, if_pos (Or.inr hi)]
    · by_cases his : i = s.toNat <;> simp [hi, his]

@[simp] theorem ledger_grantAll (taken : List UInt32) (m : FreeMap) :
    (m.grantAll taken).ledger = (taken.map (Request.granted · 1)).reverse ++ m.ledger := by
  induction taken generalizing m with
  | nil => rfl
  | cons s taken ih =>
    rw [grantAll_cons, ih]
    simp [grant]

@[simp] theorem ledger_takeBackAll (returned : List UInt32) (m : FreeMap) :
    (m.takeBackAll returned).ledger =
      (returned.map (Request.returned · 1)).reverse ++ m.ledger := by
  induction returned generalizing m with
  | nil => rfl
  | cons s returned ih =>
    rw [takeBackAll_cons, ih]
    simp [takeBack]

@[simp] theorem quota_grantAll (taken : List UInt32) (m : FreeMap) :
    (m.grantAll taken).quota = m.quota.map (· - taken.length) := by
  induction taken generalizing m with
  | nil => simp
  | cons s taken ih =>
    rw [grantAll_cons, ih]
    simp only [grant, Option.map_map, List.length_cons]
    congr 1
    funext q
    simp only [Function.comp]
    omega

@[simp] theorem quota_takeBackAll (returned : List UInt32) (m : FreeMap) :
    (m.takeBackAll returned).quota = m.quota := by
  induction returned generalizing m with
  | nil => rfl
  | cons s returned ih =>
    rw [takeBackAll_cons, ih]
    rfl

theorem allocs_grantAll (m : FreeMap) (taken : List UInt32) :
    (m.grantAll taken).allocs = m.allocs + taken.length := by
  have hgranted : (taken.map (Request.granted · 1)).countP Request.isGranted = taken.length := by
    rw [List.countP_map, List.countP_eq_length]
    exact fun _ _ => rfl
  rw [allocs, ledger_grantAll, List.countP_append, List.countP_reverse, hgranted, allocs]
  omega

theorem releases_grantAll (m : FreeMap) (taken : List UInt32) :
    (m.grantAll taken).releases = m.releases := by
  have hgranted : (taken.map (Request.granted · 1)).countP Request.isReturned = 0 := by
    rw [List.countP_map, List.countP_eq_zero]
    exact fun _ _ => Bool.false_ne_true
  rw [releases, ledger_grantAll, List.countP_append, List.countP_reverse, hgranted, releases]
  omega

theorem allocs_takeBackAll (m : FreeMap) (returned : List UInt32) :
    (m.takeBackAll returned).allocs = m.allocs := by
  have hreturned : (returned.map (Request.returned · 1)).countP Request.isGranted = 0 := by
    rw [List.countP_map, List.countP_eq_zero]
    exact fun _ _ => Bool.false_ne_true
  rw [allocs, ledger_takeBackAll, List.countP_append, List.countP_reverse, hreturned, allocs]
  omega

theorem releases_takeBackAll (m : FreeMap) (returned : List UInt32) :
    (m.takeBackAll returned).releases = m.releases + returned.length := by
  have hreturned : (returned.map (Request.returned · 1)).countP Request.isReturned =
      returned.length := by
    rw [List.countP_map, List.countP_eq_length]
    exact fun _ _ => rfl
  rw [releases, ledger_takeBackAll, List.countP_append, List.countP_reverse, hreturned, releases]
  omega

theorem allocs_refuse (m : FreeMap) : m.refuse.allocs = m.allocs := by
  simp [allocs, refuse, Request.isGranted]

theorem releases_refuse (m : FreeMap) : m.refuse.releases = m.releases := by
  simp [releases, refuse, Request.isReturned]

theorem within_grant {m : FreeMap} {n : Nat} (hw : m.bitmap.Within n) {s : UInt32}
    (h : (m.bitmap.used? s.toNat).isSome) : (m.grant s).bitmap.Within n := by
  intro i hi
  rw [grant, Bitmap.used?_assign _ _ _ _ h] at hi
  by_cases his : i = s.toNat
  · simp [his] at hi
  · rw [if_neg his] at hi
    exact hw i hi

/-- What is handed out is the front of the supply, and the rest of the supply is left. -/
theorem supply_grantAll {taken rest : List UInt32} {m : FreeMap} {n : Nat}
    (hw : m.bitmap.Within n) (h : m.supply = taken ++ rest) :
    (m.grantAll taken).supply = rest := by
  induction taken generalizing m with
  | nil => exact h
  | cons s taken ih =>
    have hs : m.bitmap.used? s.toNat = some false := mem_supply hw (by simp [h])
    exact ih (within_grant hw (by rw [hs]; rfl)) (supply_grant h hw)

theorem freeCount_grantAll {taken : List UInt32} {m : FreeMap} (hnodup : taken.Nodup)
    (h : ∀ s ∈ taken, m.bitmap.used? s.toNat = some false) :
    (m.grantAll taken).bitmap.freeCount + taken.length = m.bitmap.freeCount := by
  induction taken generalizing m with
  | nil => rfl
  | cons s taken ih =>
    obtain ⟨hnot, hnodup⟩ := List.nodup_cons.1 hnodup
    have hs := h s List.mem_cons_self
    have hrest := ih (m := m.grant s) hnodup (by
      intro t ht
      rw [used?_grant (by rw [hs]; rfl), if_neg fun he : t = s => hnot (he ▸ ht)]
      exact h t (List.mem_cons_of_mem _ ht))
    have hone := Bitmap.freeCount_assign_true hs
    change (m.grant s).bitmap.freeCount + 1 = _ at hone
    simp only [grantAll_cons, List.length_cons]
    omega

theorem freeCount_takeBackAll {returned : List UInt32} {m : FreeMap} (hnodup : returned.Nodup)
    (h : ∀ s ∈ returned, m.bitmap.used? s.toNat = some true) :
    (m.takeBackAll returned).bitmap.freeCount = m.bitmap.freeCount + returned.length := by
  induction returned generalizing m with
  | nil => rfl
  | cons s returned ih =>
    obtain ⟨hnot, hnodup⟩ := List.nodup_cons.1 hnodup
    have hs := h s List.mem_cons_self
    have hrest := ih (m := m.takeBack s) hnodup (by
      intro t ht
      rw [used?_takeBack (by rw [hs]; rfl), if_neg fun he : t = s => hnot (he ▸ ht)]
      exact h t (List.mem_cons_of_mem _ ht))
    have hone := Bitmap.freeCount_assign_false hs
    change (m.takeBack s).bitmap.freeCount = _ at hone
    simp only [takeBackAll_cons, List.length_cons]
    omega

theorem capacity_grantAll (taken : List UInt32) (m : FreeMap) :
    (m.grantAll taken).bitmap.capacity = m.bitmap.capacity := by
  induction taken generalizing m with
  | nil => rfl
  | cons s taken ih => exact ih (m.grant s)

theorem capacity_takeBackAll (returned : List UInt32) (m : FreeMap) :
    (m.takeBackAll returned).bitmap.capacity = m.bitmap.capacity := by
  induction returned generalizing m with
  | nil => rfl
  | cons s returned ih => exact ih (m.takeBack s)

theorem bitmap_takeBackAll_congr {m m' : FreeMap} (h : m.bitmap = m'.bitmap)
    (returned : List UInt32) :
    (m.takeBackAll returned).bitmap = (m'.takeBackAll returned).bitmap := by
  induction returned generalizing m m' with
  | nil => exact h
  | cons s returned ih =>
    apply ih
    simp only [takeBack, h]

/-- Sectors that were handed out and are taken back, in whatever order, leave no trace in the
bits. -/
theorem bitmap_takeBackAll_grantAll {taken returned : List UInt32} {m : FreeMap}
    (h : ∀ s ∈ taken, m.bitmap.used? s.toNat = some false) (hperm : returned.Perm taken) :
    ((m.grantAll taken).takeBackAll returned).bitmap = m.bitmap := by
  have hsome : ∀ s ∈ taken, (m.bitmap.used? s.toNat).isSome := fun s hs => by rw [h s hs]; rfl
  apply Bitmap.eq_of_used?
  · rw [capacity_takeBackAll, capacity_grantAll]
  · intro i
    have hmem : i ∈ returned.map UInt32.toNat ↔ i ∈ taken.map UInt32.toNat :=
      (hperm.map UInt32.toNat).mem_iff
    rw [used?_takeBackAll fun s hs => by
      rw [isSome_used?_grantAll]
      exact hsome s (hperm.mem_iff.1 hs), used?_grantAll hsome]
    by_cases hi : i ∈ taken.map UInt32.toNat
    · obtain ⟨s, hs, rfl⟩ := List.mem_map.1 hi
      rw [if_pos (hmem.2 hi), h s hs]
    · rw [if_neg fun he => hi (hmem.1 he), if_neg hi]

end FreeMap

end SectorVolume
