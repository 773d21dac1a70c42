import SiteServer.Text.Basic

/-!
# Rounding to the nearest

Quotients of natural numbers rounded to the nearest integer, and natural numbers rounded to those
that fit into 53 significant bits.  A tie goes to the even neighbour.
-/

namespace SiteServer.Rounding

/-- The integer nearest to `num / den`, the even one of two. -/
def nearestEven (num den : Nat) : Nat :=
  let quotient := num / den
  let twice := 2 * (num % den)
  if twice < den then quotient
  else if den < twice then quotient + 1
  else quotient + quotient % 2

/-- How many bits a double keeps. -/
def precision : Nat := 53

/-- The double nearest to a natural number, the even one of two. -/
def toDouble (n : Nat) : Nat :=
  if n < 1 <<< precision then n
  else
    let unit := 1 <<< (n.log2 + 1 - precision)
    nearestEven n unit * unit

/-- The rounded quotient is at most half a unit away. -/
theorem nearestEven_close {num den : Nat} (h : 0 < den) :
    2 * num ≤ 2 * (nearestEven num den * den) + den ∧
      2 * (nearestEven num den * den) ≤ 2 * num + den := by
  have hdm := Nat.div_add_mod num den
  have hlt := Nat.mod_lt num h
  have hcomm : den * (num / den) = num / den * den := Nat.mul_comm _ _
  unfold nearestEven
  dsimp only
  split
  · omega
  · split
    · rw [Nat.add_mul]; omega
    · rcases Nat.mod_two_eq_zero_or_one (num / den) with hm | hm <;> rw [hm]
      · rw [Nat.add_zero]; omega
      · rw [Nat.add_mul]; omega

@[simp] theorem toDouble_of_lt {n : Nat} (h : n < 1 <<< precision) : toDouble n = n :=
  if_pos h

end SiteServer.Rounding
