import Mathlib.Algebra.Order.Ring.Nat
import SiteServer.Text.Rounding

/-!
# Rounding keeps the order

A quotient that is rounded to the nearest integer passes no integer, and goes to the even one of two
neighbours when it lies halfway between them.  A number is rounded to a double by the unit of its
last place, and passes no multiple of this unit.  The powers of two between which this unit is the
same are such multiples, so that the nearest doubles are in order (`toDouble_mono`), also where the
unit changes.
-/

namespace SiteServer.Rounding

variable {num num' den k n m : Nat}

/-! ### Quotients -/

lemma div_le_nearestEven (num den : Nat) : num / den ≤ nearestEven num den := by
  unfold nearestEven
  dsimp only
  split
  · exact Nat.le_refl _
  · split <;> omega

lemma nearestEven_le_succ (num den : Nat) : nearestEven num den ≤ num / den + 1 := by
  unfold nearestEven
  dsimp only
  split
  · omega
  · split <;> omega

/-- A multiple of the denominator is divided exactly. -/
lemma nearestEven_mul (k : Nat) (h : 0 < den) : nearestEven (k * den) den = k := by
  simp [nearestEven, Nat.mul_div_cancel k h, h]

/-- Rounded quotients are in order. -/
lemma nearestEven_mono (h : num ≤ num') : nearestEven num den ≤ nearestEven num' den := by
  rcases Nat.lt_or_eq_of_le (Nat.div_le_div_right (c := den) h) with hlt | heq
  · -- there is an integer between the two quotients
    calc nearestEven num den
        _ ≤ num / den + 1 := nearestEven_le_succ num den
        _ ≤ num' / den := hlt
        _ ≤ nearestEven num' den := div_le_nearestEven num' den
  · have hdiv := Nat.div_add_mod num den
    have hdiv' := Nat.div_add_mod num' den
    rw [← heq] at hdiv'
    have hmod : num % den ≤ num' % den := by omega
    unfold nearestEven
    dsimp only
    rw [← heq]
    repeat' split
    all_goals omega

lemma nearestEven_le (h : num ≤ k * den) (hden : 0 < den) : nearestEven num den ≤ k := by
  rw [← nearestEven_mul k hden]
  exact nearestEven_mono h

lemma le_nearestEven (h : k * den ≤ num) (hden : 0 < den) : k ≤ nearestEven num den := by
  rw [← nearestEven_mul k hden]
  exact nearestEven_mono h

/-- A tie goes to the even neighbour. -/
lemma nearestEven_of_tie (hden : 0 < den) (h : 2 * num = (2 * k + 1) * den) :
    nearestEven num den = k + k % 2 := by
  have hnum : 2 * num = 2 * (den * k) + den := by
    rw [h, Nat.add_mul, Nat.one_mul, Nat.mul_assoc, Nat.mul_comm k den]
  have hrest : num = den * k + den / 2 := by omega
  have hhalf : 2 * (den / 2) = den := by omega
  have hlt : den / 2 < den := Nat.div_lt_self hden (by omega)
  have hdiv : num / den = k := by
    rw [hrest, Nat.mul_add_div hden, Nat.div_eq_of_lt hlt, Nat.add_zero]
  have hmod : num % den = den / 2 := by rw [hrest, Nat.mul_add_mod, Nat.mod_eq_of_lt hlt]
  rw [nearestEven, hdiv, hmod, hhalf]
  simp

/-! ### Doubles -/

/-- The unit of the last place of the double nearest to a number. -/
def lastPlace (n : Nat) : Nat :=
  1 <<< (n.log2 + 1 - precision)

lemma lastPlace_eq (n : Nat) : lastPlace n = 2 ^ (n.log2 + 1 - precision) :=
  Nat.one_shiftLeft _

lemma lastPlace_pos (n : Nat) : 0 < lastPlace n := by
  rw [lastPlace_eq]
  exact Nat.two_pow_pos _

/-- The more bits a number may have, the greater the unit may be. -/
lemma lastPlace_dvd (h : n < 2 ^ (precision + k)) : lastPlace n ∣ 2 ^ k := by
  rw [lastPlace_eq]
  refine Nat.pow_dvd_pow 2 ?_
  rcases Nat.eq_zero_or_pos n with rfl | hpos
  · rw [Nat.log2_zero, precision]
    omega
  · have hlog : n.log2 < precision + k := (Nat.log2_lt (by omega)).2 h
    omega

/-- Small numbers are rounded as well, to integers. -/
lemma toDouble_eq (n : Nat) : toDouble n = nearestEven n (lastPlace n) * lastPlace n := by
  unfold toDouble
  split
  · next hlt =>
    rw [Nat.one_shiftLeft] at hlt
    have hunit : lastPlace n = 1 := Nat.dvd_one.1 (lastPlace_dvd (k := 0) hlt)
    have hexact := nearestEven_mul n Nat.one_pos
    rw [Nat.mul_one] at hexact
    rw [hunit, hexact, Nat.mul_one]
  · rfl

/-- The nearest double is at most half a unit of the last place away. -/
lemma toDouble_close (n : Nat) :
    2 * n ≤ 2 * toDouble n + lastPlace n ∧ 2 * toDouble n ≤ 2 * n + lastPlace n := by
  rw [toDouble_eq]
  exact nearestEven_close (lastPlace_pos n)

lemma toDouble_le (hdvd : lastPlace n ∣ m) (h : n ≤ m) : toDouble n ≤ m := by
  obtain ⟨k, rfl⟩ := hdvd
  rw [Nat.mul_comm] at h ⊢
  rw [toDouble_eq]
  exact Nat.mul_le_mul_right _ (nearestEven_le h (lastPlace_pos n))

lemma le_toDouble (hdvd : lastPlace n ∣ m) (h : m ≤ n) : m ≤ toDouble n := by
  obtain ⟨k, rfl⟩ := hdvd
  rw [Nat.mul_comm] at h ⊢
  rw [toDouble_eq]
  exact Nat.mul_le_mul_right _ (le_nearestEven h (lastPlace_pos n))

/-- A number without anything behind the last place is a double. -/
lemma toDouble_of_dvd (h : lastPlace n ∣ n) : toDouble n = n :=
  Nat.le_antisymm (toDouble_le h (Nat.le_refl n)) (le_toDouble h (Nat.le_refl n))

/-- Rounding does not leave the powers of two around a number. -/
lemma toDouble_le_two_pow (n : Nat) : toDouble n ≤ 2 ^ (n.log2 + 1) := by
  refine toDouble_le ?_ (Nat.le_of_lt Nat.lt_log2_self)
  rw [lastPlace_eq]
  exact Nat.pow_dvd_pow 2 (Nat.sub_le _ _)

lemma two_pow_le_toDouble (h : n ≠ 0) : 2 ^ n.log2 ≤ toDouble n := by
  refine le_toDouble ?_ (Nat.log2_self_le h)
  rw [lastPlace_eq]
  exact Nat.pow_dvd_pow 2 (by rw [precision]; omega)

/-- The nearest doubles are in order. -/
theorem toDouble_mono (h : n ≤ m) : toDouble n ≤ toDouble m := by
  by_cases hlog : n.log2 = m.log2
  · have hunit : lastPlace n = lastPlace m := by rw [lastPlace, lastPlace, hlog]
    rw [toDouble_eq, toDouble_eq, hunit]
    exact Nat.mul_le_mul_right _ (nearestEven_mono h)
  · have hm : m ≠ 0 := by
      rintro rfl
      exact hlog (by rw [Nat.le_zero.1 h])
    have hle : n.log2 ≤ m.log2 := by
      rcases Nat.eq_zero_or_pos n with rfl | hn
      · exact Nat.zero_le _
      · exact (Nat.le_log2 hm).2 (Nat.le_trans (Nat.log2_self_le (by omega)) h)
    calc toDouble n
        _ ≤ 2 ^ (n.log2 + 1) := toDouble_le_two_pow n
        _ ≤ 2 ^ m.log2 := Nat.pow_le_pow_right (by omega) (by omega)
        _ ≤ toDouble m := two_pow_le_toDouble hm

end SiteServer.Rounding
