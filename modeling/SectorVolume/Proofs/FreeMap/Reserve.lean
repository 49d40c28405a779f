import SectorVolume.Proofs.FreeMap.Supply

/-!
Setting sectors aside. The first sectors of an empty map can be reserved, and then the others and
no more are free.
-/

namespace SectorVolume

namespace Bitmap

/-- Free sectors in a row can be set aside. -/
theorem exists_reserveFrom (count : Nat) {start : Nat} {b : Bitmap}
    (hfree : ∀ i, start ≤ i → i < start + count → b.used? i = some false) :
    ∃ b', reserveFrom count start b = .ok b' ∧ b'.capacity = b.capacity ∧
      ∀ i, b'.used? i = if start ≤ i ∧ i < start + count then some true else b.used? i := by
  induction count generalizing start b with
  | zero =>
    refine ⟨b, rfl, rfl, fun i => ?_⟩
    rw [if_neg (by omega)]
  | succ count ih =>
    have hfirst : b.used? start = some false := hfree start (Nat.le_refl _) (by omega)
    have hassign : ∀ i, (b.assign start true).used? i =
        if i = start then some true else b.used? i := fun i =>
      used?_assign _ _ _ _ (by rw [hfirst]; rfl)
    have hrest : ∀ i, start + 1 ≤ i → i < start + 1 + count →
        (b.assign start true).used? i = some false := by
      intro i hle hlt
      rw [hassign, if_neg (by omega)]
      exact hfree i (by omega) (by omega)
    obtain ⟨b', hreserve, hcapacity, hused⟩ := ih hrest
    refine ⟨b', ?_, hcapacity, fun i => ?_⟩
    · rw [reserveFrom, isUsed, hfirst]
      exact hreserve
    · rw [hused, hassign]
      by_cases hi : i = start
      · rw [if_neg (by omega), if_pos hi, if_pos (by omega)]
      · by_cases hin : start + 1 ≤ i ∧ i < start + 1 + count
        · rw [if_pos hin, if_pos (by omega)]
        · rw [if_neg hin, if_neg hi, if_neg (by omega)]

end Bitmap

namespace FreeMap

/-- The first sectors of an empty map are set aside. -/
theorem exists_reserve_blank {mapped reserved : Nat} (hfit : reserved ≤ mapped)
    (hsize : mapped ≤ UInt32.size) :
    ∃ b, (ofBitmap (Bitmap.blank mapped)).reserve 0 reserved = .ok (ofBitmap b) ∧
      b.capacity = mapped ∧ ∀ i, b.used? i = some false ↔ reserved ≤ i ∧ i < mapped := by
  have hfree : ∀ i, 0 ≤ i → i < 0 + reserved → (Bitmap.blank mapped).used? i = some false :=
    fun i _ hlt => Bitmap.used?_blank_eq_some_false.2 (by omega)
  obtain ⟨b, hreserve, hcapacity, hused⟩ := Bitmap.exists_reserveFrom reserved hfree
  have hadd : checkedAdd (0 : UInt32).toNat reserved = .ok reserved := by
    apply checkedAdd_eq_ok_iff.2
    refine ⟨?_, (Nat.zero_add _).symm⟩
    have hlimit : UInt32.size < wordLimit := by decide
    change 0 + reserved < wordLimit
    omega
  have hbitmap : (Bitmap.blank mapped).reserve 0 reserved = .ok b := by
    rw [Bitmap.reserve, hadd]
    exact hreserve
  refine ⟨b, ?_, hcapacity, fun i => ?_⟩
  · rw [FreeMap.reserve]
    change (Bitmap.reserve (Bitmap.blank mapped) 0 reserved >>= _) = _
    rw [hbitmap]
    rfl
  · rw [hused]
    by_cases hi : 0 ≤ i ∧ i < 0 + reserved
    · rw [if_pos hi]
      simp only [Option.some.injEq, Bool.true_eq_false, false_iff]
      omega
    · rw [if_neg hi, Bitmap.used?_blank_eq_some_false]
      omega

end FreeMap

end SectorVolume
