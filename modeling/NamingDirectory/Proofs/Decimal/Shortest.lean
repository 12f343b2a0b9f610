import NamingDirectory.Decimal.Shortest

/-!
# The shortest text has digits

The digits of a number that is not zero are not zero (`digits_shortest_ne_zero`). The interval of numbers that
read back as it lies above zero, so no grid has its point in it at zero; and if seventeen digits were not
enough, what is left of the number after rounding would still be at least one.

The search for the shortest text tries one more digit at a time. Each try that finds a point finds one in the
interval (`Neighbourhood.IsPositive.integer?_ne_zero`), and the last one rounds to the nearest point of a grid
that is finer than the number (`den_le_mid_shift`). So the induction on the digits that are left to try
(`shortestFrom_ne_zero`) needs to know of the number itself in its last step only.
-/

namespace NamingDirectory.Decimal

open Binary64

theorem divHalfEven_ne_zero {num den : Nat} (h : den ≤ num) (hden : 0 < den) :
    divHalfEven num den ≠ 0 := by
  have hfloor : 0 < num / den := Nat.div_pos h hden
  simp only [divHalfEven]
  split
  · omega
  · split
    · omega
    · omega

theorem tenTo_pos (n : Nat) : 0 < tenTo n := Nat.pow_pos (by decide)

theorem twoTo_pos (n : Nat) : 0 < twoTo n := Nat.pow_pos (by decide)

namespace Neighbourhood

variable {nb : Neighbourhood}

/-- Whether an interval lies above zero. -/
structure IsPositive (nb : Neighbourhood) : Prop where
  low : 0 < nb.low
  mid : 0 < nb.mid
  den : 0 < nb.den

theorem IsPositive.shift (h : nb.IsPositive) (e : Int) : (nb.shift e).IsPositive :=
  ⟨Nat.mul_pos h.low (tenTo_pos _), Nat.mul_pos h.mid (tenTo_pos _), Nat.mul_pos h.den (tenTo_pos _)⟩

theorem IsPositive.ne_zero_of_holds (h : nb.IsPositive) {d : Nat} (hd : nb.holds d) : d ≠ 0 := by
  rintro rfl
  have hlow := h.low
  rw [holds] at hd
  split at hd
  · simp at hd
    omega
  · simp at hd

theorem IsPositive.integer?_ne_zero (h : nb.IsPositive) {d : Nat} (hd : nb.integer? = some d) : d ≠ 0 := by
  simp only [integer?] at hd
  split at hd
  · next hfloor _ =>
    cases hd
    have hfloor : nb.mid / nb.den ≠ 0 := h.ne_zero_of_holds hfloor
    refine divHalfEven_ne_zero ?_ h.den
    exact (Nat.div_pos_iff.mp (Nat.pos_of_ne_zero hfloor)).2
  · next hfloor _ =>
    cases hd
    exact h.ne_zero_of_holds hfloor
  · cases hd
    exact Nat.succ_ne_zero _
  · cases hd

end Neighbourhood

/-! ### The size of what is left

How large a number is after its leading zeros are taken off, and how large a number of so many digits is at
least. The bounds are those that the search for the shortest text works with. -/

/-- After its leading zeros are taken away, a number is at least one, if it was not too small to count them. -/
theorem le_leadingZeros {num den bound : Nat} (h : den ≤ num * tenTo bound) :
    den ≤ num * tenTo (leadingZeros num den bound) := by
  induction bound generalizing num with
  | zero => exact h
  | succ bound ih =>
    rw [leadingZeros]
    split
    · next hle => simpa [tenTo] using hle
    · have hstep : ∀ j, num * tenTo (j + 1) = num * 10 * tenTo j := by
        intro j
        show num * 10 ^ (j + 1) = num * 10 * 10 ^ j
        rw [Nat.pow_succ, Nat.mul_comm (10 ^ j), Nat.mul_assoc]
      rw [hstep] at h ⊢
      exact ih h

/-- A number of so many digits is as large as the power of ten that has as many. -/
theorem tenTo_le_of_decimalLength {n : Nat} (hn : 0 < n) : tenTo (decimalLength n - 1) ≤ n := by
  rw [decimalLength]
  by_cases hlength : (Nat.toDigits 10 n).length - 1 = 0
  · rw [hlength]
    exact hn
  · have hiff := Nat.length_toDigits_le_iff (n := n) (b := 10) (by decide) (Nat.pos_of_ne_zero hlength)
    have hlt : ¬ (Nat.toDigits 10 n).length ≤ (Nat.toDigits 10 n).length - 1 := by
      have := Nat.length_toDigits_pos (b := 10) (n := n)
      omega
    exact Nat.le_of_not_lt fun h => hlt (hiff.mpr h)

theorem twoTo_le_twoTo {m n : Nat} (h : m ≤ n) : twoTo m ≤ twoTo n :=
  Nat.pow_le_pow_right (by decide) h

theorem tenTo_le_tenTo {m n : Nat} (h : m ≤ n) : tenTo m ≤ tenTo n :=
  Nat.pow_le_pow_right (by decide) h

/-- Seventeen places of a number, counted from its first digit, leave at least one. -/
theorem den_le_mid_shift {nb : Neighbourhood} (h : nb.IsPositive) (hbound : nb.den ≤ nb.mid * tenTo 400) :
    (nb.shift (17 - magnitude nb.mid nb.den)).den ≤ (nb.shift (17 - magnitude nb.mid nb.den)).mid := by
  simp only [Neighbourhood.shift, magnitude]
  split
  · next hle =>
    have hdiv : 0 < nb.mid / nb.den := Nat.div_pos hle h.den
    generalize hlength : decimalLength (nb.mid / nb.den) = length
    calc nb.den * tenTo (-(17 - (length : Int))).toNat
        ≤ nb.den * tenTo (length - 1) := Nat.mul_le_mul_left _ (tenTo_le_tenTo (by omega))
      _ ≤ nb.den * (nb.mid / nb.den) :=
        Nat.mul_le_mul_left _ (hlength ▸ tenTo_le_of_decimalLength hdiv)
      _ ≤ nb.mid := Nat.mul_div_le _ _
      _ ≤ nb.mid * tenTo (17 - (length : Int)).toNat := Nat.le_mul_of_pos_right _ (tenTo_pos _)
  · have hzeros := le_leadingZeros hbound
    generalize leadingZeros nb.mid nb.den 400 = zeros at hzeros ⊢
    have hnone : (-(17 - (1 - (zeros : Int)))).toNat = 0 := by omega
    have hone : tenTo 0 = 1 := rfl
    rw [hnone, hone, Nat.mul_one]
    exact Nat.le_trans hzeros (Nat.mul_le_mul_left _ (tenTo_le_tenTo (by omega)))

/-- Each try finds no zero, and the last one is a rounding on a grid that is fine enough. -/
theorem shortestFrom_ne_zero {nb : Neighbourhood} (h : nb.IsPositive) {p : Int} {count more : Nat}
    (hlast : (nb.shift ((count + more : Nat) - p)).den ≤ (nb.shift ((count + more : Nat) - p)).mid) :
    (shortestFrom nb p count more).digits ≠ 0 := by
  induction more generalizing count with
  | zero => exact divHalfEven_ne_zero hlast (h.shift _).den
  | succ more ih =>
    rw [shortestFrom]
    split
    · next d hd => exact (h.shift _).integer?_ne_zero hd
    · refine ih ?_
      rwa [Nat.add_right_comm, Nat.add_assoc]

theorem normal_ne_zero {d : Decimal} (h : d.digits ≠ 0) (bound : Nat) : (d.normal bound).digits ≠ 0 := by
  induction bound generalizing d with
  | zero => exact h
  | succ bound ih =>
    rw [normal]
    split
    · next hlast => exact ih (by show d.digits / 10 ≠ 0; omega)
    · exact h

/-- The interval of a number that is not zero lies above zero, and its number is not too small. -/
theorem isPositive_neighbourhood {x : Binary64} (h : x.significand ≠ 0) :
    (neighbourhood x).IsPositive ∧ (neighbourhood x).den ≤ (neighbourhood x).mid * tenTo 400 := by
  have hmid : 0 < (neighbourhood x).mid :=
    Nat.mul_pos (Nat.mul_pos (by decide) (Nat.pos_of_ne_zero h)) (twoTo_pos _)
  refine ⟨⟨?_, hmid, twoTo_pos _⟩, ?_⟩
  · refine Nat.mul_pos ?_ (twoTo_pos _)
    split
    · omega
    · omega
  · have hexponent : (-(x.exponent - 2)).toNat ≤ 1076 := by
      rw [Binary64.exponent]
      split
      · omega
      · omega
    calc (neighbourhood x).den ≤ twoTo 1076 := twoTo_le_twoTo hexponent
      _ ≤ tenTo 400 := by decide +kernel
      _ ≤ (neighbourhood x).mid * tenTo 400 := Nat.le_mul_of_pos_left _ hmid

/-- The digits of a number that is not zero are not zero. -/
theorem digits_shortest_ne_zero {x : Binary64} (h : x.significand ≠ 0) : (shortest x).digits ≠ 0 := by
  obtain ⟨hpositive, hbound⟩ := isPositive_neighbourhood h
  have hlast := den_le_mid_shift hpositive hbound
  have hcount : (17 : Int) = (1 + 16 : Nat) := rfl
  rw [hcount] at hlast
  exact normal_ne_zero (shortestFrom_ne_zero hpositive hlast) 20

end NamingDirectory.Decimal
