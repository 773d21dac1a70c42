import Mathlib.Algebra.Order.Ring.Rat
import Mathlib.Data.Rat.Cast.Order
import Mathlib.Tactic.Linarith
import Mathlib.Tactic.NormNum
import Mathlib.Tactic.Ring
import SiteServer.Proofs.Http.Lines
import SiteServer.Proofs.Text.Nearest
import SiteServer.Site.Size

/-!
# Displayed sizes are accurate

A displayed size is read as what it says: a decimal number of the bytes that its suffix stands for.
What is read is the size itself below one kibibyte, and above that at most half a tenth of the
suffix away from it, up to the sizes that are rounded to a double first.  The displayed sizes of
larger and larger files never go down (`sizes_shown`), neither where the suffix changes nor where
the rounding to doubles begins.
-/

namespace SiteServer

namespace Decimal

/-- The number that a text stands for: decimal digits, and perhaps a point with more of them behind
it. -/
def readPoint? (text : Text) : Option ℚ :=
  match Text.splitFirst? '.' text with
  | none => (read? text).map fun n => (n : ℚ)
  | some (whole, part) =>
    (read? whole).bind fun n => (read? part).map fun k => (n : ℚ) + k / 10 ^ part.length

lemma point_not_mem_write (n : Nat) : '.' ∉ write n := by
  intro h
  exact absurd (isDigit_of_mem_write h) (by decide)

lemma readPoint?_write (n : Nat) : readPoint? (write n) = some (n : ℚ) := by
  rw [readPoint?, Text.splitFirst?_eq_none_iff.2 (point_not_mem_write n)]
  simp [read?_write]

end Decimal

namespace Size

/-! ### Reading a displayed size -/

/-- The bytes that a suffix stands for. -/
def unit? : Char → Option Nat
  | 'b' => some 1
  | 'k' => some 1024
  | 'm' => some 1048576
  | _ => none

/-- A displayed size: so many times the bytes of its suffix. -/
structure Reading where
  number : ℚ
  unit : Nat

/-- The bytes that a displayed size stands for. -/
def Reading.bytes (reading : Reading) : ℚ :=
  reading.number * reading.unit

/-- What a text says, read as a size. -/
def read? (text : Text) : Option Reading :=
  (Decimal.readPoint? text.dropLast).bind fun number =>
    (text.getLast?.bind unit?).map fun unit => ⟨number, unit⟩

/-- What a listing shows of a size. -/
structure Shows (size : Nat) (reading : Reading) : Prop where
  unit_eq : reading.unit = if size < 1024 then 1 else if size < 1048576 then 1024 else 1048576
  bytes_eq : size < 1024 → reading.bytes = size
  /-- There is one decimal. -/
  tenths : ∃ n : Nat, reading.number = n / 10
  close : size ≤ 2 ^ 53 → |reading.bytes - size| ≤ 5 / 100 * reading.unit
  /-- Greater sizes are rounded to a double first. -/
  close_double : |reading.bytes - size| ≤ 51 / 1000 * reading.unit
  /-- What lies halfway between two tenths goes to the even one. -/
  even : 1024 ≤ size → ∀ value, value = size ∨ value = Rounding.toDouble size →
    ∀ k : Nat, 20 * value = (2 * k + 1) * reading.unit → reading.number = (k + k % 2 : Nat) / 10

variable {size unit s t : Nat}

/-! ### What a displayed size says -/

/-- A displayed size is a number with the suffix behind it. -/
lemma read?_concat {text : Text} {number : ℚ} {suffix : Char}
    (htext : Decimal.readPoint? text = some number) (hsuffix : unit? suffix = some unit) :
    read? (text ++ [suffix]) = some ⟨number, unit⟩ := by
  simp [read?, htext, hsuffix]

lemma readPoint?_writeTenths (n : Nat) :
    Decimal.readPoint? (writeTenths n) = some ((n : ℚ) / 10) := by
  have hlength : (Decimal.write (n % 10)).length = 1 := by
    rw [Decimal.write, Nat.toDigits_of_lt_base (Nat.mod_lt n (by decide))]
    rfl
  have hvalue : ((n / 10 : Nat) : ℚ) + ((n % 10 : Nat) : ℚ) / 10 = (n : ℚ) / 10 := by
    have hdiv : (10 : ℚ) * ((n / 10 : Nat) : ℚ) + ((n % 10 : Nat) : ℚ) = (n : ℚ) := by
      exact_mod_cast Nat.div_add_mod n 10
    linarith
  rw [Decimal.readPoint?, writeTenths,
    Text.splitFirst?_append_sep (Decimal.point_not_mem_write (n / 10))]
  simp [Decimal.read?_write, hlength, hvalue]

/-- What is read off the displayed size. -/
def shown (size : Nat) : Reading :=
  if size < kibi then ⟨size, 1⟩
  else if size < mebi then ⟨tenths size kibi / 10, kibi⟩
  else ⟨tenths size mebi / 10, mebi⟩

lemma read?_text (size : Nat) : read? (text size) = some (shown size) := by
  unfold text shown
  split
  · exact read?_concat (Decimal.readPoint?_write size) rfl
  · split
    · exact read?_concat (readPoint?_writeTenths _) rfl
    · exact read?_concat (readPoint?_writeTenths _) rfl

/-! ### How far it is from the size -/

/-- The number of tenths is at most half a one away from the double. -/
lemma abs_tenths_sub_le (size : Nat) (h : 0 < unit) :
    |(tenths size unit : ℚ) / 10 * unit - Rounding.toDouble size| ≤ 5 / 100 * unit := by
  have hclose : 2 * (10 * Rounding.toDouble size) ≤ 2 * (tenths size unit * unit) + unit
      ∧ 2 * (tenths size unit * unit) ≤ 2 * (10 * Rounding.toDouble size) + unit :=
    Rounding.nearestEven_close h
  obtain ⟨hlow, hhigh⟩ := hclose
  have hlow' : (2 : ℚ) * (10 * Rounding.toDouble size) ≤ 2 * (tenths size unit * unit) + unit := by
    exact_mod_cast hlow
  have hhigh' : (2 : ℚ) * (tenths size unit * unit) ≤ 2 * (10 * Rounding.toDouble size) + unit := by
    exact_mod_cast hhigh
  rw [abs_le]
  constructor <;> linarith

/-- Sizes up to `2 ^ 53` are doubles. -/
lemma toDouble_of_le (h : size ≤ 2 ^ 53) : Rounding.toDouble size = size := by
  rcases Nat.lt_or_eq_of_le h with hlt | rfl
  · exact Rounding.toDouble_of_lt hlt
  · have hplace : Rounding.lastPlace (2 ^ 53) ∣ 2 ^ 1 := Rounding.lastPlace_dvd (by decide)
    exact Rounding.toDouble_of_dvd (hplace.trans (by decide))

/-- The unit of the last place of a size with 64 bits is at most two kibibytes. -/
lemma lastPlace_dvd_of_lt (h : size < 2 ^ 64) : Rounding.lastPlace size ∣ 2 ^ 11 :=
  Rounding.lastPlace_dvd h

lemma abs_toDouble_sub_le (h : size < 2 ^ 64) :
    |(Rounding.toDouble size : ℚ) - size| ≤ 1024 := by
  have hplace : Rounding.lastPlace size ≤ 2 ^ 11 :=
    Nat.le_of_dvd (by decide) (lastPlace_dvd_of_lt h)
  obtain ⟨hlow, hhigh⟩ := Rounding.toDouble_close size
  have hlow' : (size : ℚ) ≤ Rounding.toDouble size + 1024 := by
    exact_mod_cast (by omega : size ≤ Rounding.toDouble size + 1024)
  have hhigh' : (Rounding.toDouble size : ℚ) ≤ size + 1024 := by
    exact_mod_cast (by omega : Rounding.toDouble size ≤ size + 1024)
  rw [abs_le]
  constructor <;> linarith

/-- A size that lies halfway between two tenths of a mebibyte is a double. -/
lemma toDouble_of_tie {k : Nat} (h : size < 2 ^ 64) (htie : 20 * size = (2 * k + 1) * mebi) :
    Rounding.toDouble size = size := by
  have hfive : 262144 * (2 * k + 1) = 5 * size := by
    rw [mebi] at htie
    linarith
  have hcoprime : Nat.Coprime 262144 5 := by decide
  have hsize : 262144 ∣ size := hcoprime.dvd_of_dvd_mul_left ⟨2 * k + 1, hfive.symm⟩
  exact Rounding.toDouble_of_dvd ((lastPlace_dvd_of_lt h).trans (Nat.dvd_trans (by decide) hsize))

/-- Up to `2 ^ 53` the number of tenths is at most half a one away from the size. -/
lemma abs_tenths_sub_size_le (hpos : 0 < unit) (hle : size ≤ 2 ^ 53) :
    |(tenths size unit : ℚ) / 10 * unit - size| ≤ 5 / 100 * unit := by
  have hnear := abs_tenths_sub_le size hpos
  rwa [toDouble_of_le hle] at hnear

/-- Where sizes are rounded to doubles first, they are shown in mebibytes, and the double is at most
a kibibyte away. -/
lemma abs_tenths_sub_size_le_double (h : size < 2 ^ 64) (hpos : 0 < unit)
    (hlarge : ¬ size ≤ 2 ^ 53 → unit = mebi) :
    |(tenths size unit : ℚ) / 10 * unit - size| ≤ 51 / 1000 * unit := by
  by_cases hle : size ≤ 2 ^ 53
  · have hclose := abs_tenths_sub_size_le hpos hle
    have hunit : (0 : ℚ) ≤ unit := by exact_mod_cast hpos.le
    linarith
  · have hnear := abs_tenths_sub_le size hpos
    have hdouble := abs_toDouble_sub_le h
    have htriangle :=
      abs_sub_le ((tenths size unit : ℚ) / 10 * unit) (Rounding.toDouble size) size
    have hmebi : (unit : ℚ) = 1048576 := by rw [hlarge hle]; norm_num [mebi]
    linarith

/-- A size or a double that lies halfway between two tenths goes to the even one. -/
lemma tenths_of_tie {value k : Nat} (h : size < 2 ^ 64) (hpos : 0 < unit)
    (hlarge : ¬ size ≤ 2 ^ 53 → unit = mebi)
    (hvalue : value = size ∨ value = Rounding.toDouble size)
    (htie : 20 * value = (2 * k + 1) * unit) : tenths size unit = k + k % 2 := by
  have hdouble : Rounding.toDouble size = value := by
    rcases hvalue with rfl | rfl
    · by_cases hle : value ≤ 2 ^ 53
      · exact toDouble_of_le hle
      · exact toDouble_of_tie h (by rw [← hlarge hle]; exact htie)
    · rfl
  refine Rounding.nearestEven_of_tie hpos ?_
  rw [hdouble, ← Nat.mul_assoc]
  exact htie

lemma unit_pos (hunit : unit = if size < 1048576 then 1024 else 1048576) : 0 < unit := by
  rw [hunit]
  split <;> decide

lemma unit_of_large (hunit : unit = if size < 1048576 then 1024 else 1048576)
    (hlarge : ¬ size ≤ 2 ^ 53) : unit = mebi := by
  rw [hunit, if_neg (by omega), mebi]

/-- A size in tenths of a unit is shown as it should be. -/
lemma shows_tenths (h : size < 2 ^ 64) (hsize : 1024 ≤ size)
    (hunit : unit = if size < 1048576 then 1024 else 1048576) :
    Shows size ⟨tenths size unit / 10, unit⟩ where
  unit_eq := by rw [hunit, if_neg (Nat.not_lt.2 hsize)]
  bytes_eq := fun hlt => absurd hlt (Nat.not_lt.2 hsize)
  tenths := ⟨_, rfl⟩
  close := abs_tenths_sub_size_le (unit_pos hunit)
  close_double := abs_tenths_sub_size_le_double h (unit_pos hunit) (unit_of_large hunit)
  even := fun _ value hvalue k htie => by
    rw [tenths_of_tie h (unit_pos hunit) (unit_of_large hunit) hvalue htie]

lemma shows_shown (h : size < 2 ^ 64) : Shows size (shown size) := by
  unfold shown
  split
  · next hlt =>
    rw [kibi] at hlt
    have hexact : (⟨size, 1⟩ : Reading).bytes = size := by simp [Reading.bytes]
    refine ⟨by rw [if_pos hlt], fun _ => hexact, ⟨10 * size, by push_cast; ring⟩, fun _ => ?_, ?_,
      fun hge => by omega⟩
    · rw [hexact, sub_self, abs_zero]
      norm_num
    · rw [hexact, sub_self, abs_zero]
      norm_num
  · next hge =>
    rw [kibi] at hge
    split
    · next hlt =>
      rw [mebi] at hlt
      exact shows_tenths h (by omega) (by rw [if_pos hlt, kibi])
    · next hge' =>
      rw [mebi] at hge'
      exact shows_tenths h (by omega) (by rw [if_neg hge', mebi])

/-! ### Greater sizes show more -/

/-- The tenths of a byte that a displayed size stands for. -/
def weight (size : Nat) : Nat :=
  if size < kibi then 10 * size
  else if size < mebi then tenths size kibi * kibi
  else tenths size mebi * mebi

lemma bytes_shown (size : Nat) : (shown size).bytes = (weight size : ℚ) / 10 := by
  unfold shown weight Reading.bytes
  split
  · push_cast
    ring
  · split <;> (push_cast; ring)

lemma tenths_mono (unit : Nat) (h : s ≤ t) : tenths s unit ≤ tenths t unit :=
  Rounding.nearestEven_mono (Nat.mul_le_mul_left 10 (Rounding.toDouble_mono h))

/-- A whole number of units is shown exactly. -/
lemma tenths_mul (k : Nat) (hunit : 0 < unit) (h : k * unit ≤ 2 ^ 53) :
    tenths (k * unit) unit = 10 * k := by
  rw [tenths, toDouble_of_le h, ← Nat.mul_assoc]
  exact Rounding.nearestEven_mul _ hunit

lemma weight_mono (h : s ≤ t) : weight s ≤ weight t := by
  have hmono : ∀ unit, tenths s unit * unit ≤ tenths t unit * unit :=
    fun unit => Nat.mul_le_mul_right unit (tenths_mono unit h)
  -- where the suffix changes, both suffixes show the same bytes
  have hkibi : kibi ≤ t → 10 * kibi ≤ tenths t kibi * kibi := by
    intro ht
    calc 10 * kibi
        _ = tenths (1 * kibi) kibi * kibi := by rw [tenths_mul 1 (by decide) (by decide)]
        _ ≤ tenths t kibi * kibi := Nat.mul_le_mul_right kibi (tenths_mono kibi (by omega))
  have hbelow : s ≤ mebi → tenths s kibi * kibi ≤ 10 * mebi := by
    intro hs
    calc tenths s kibi * kibi
        _ ≤ tenths (1024 * kibi) kibi * kibi :=
          Nat.mul_le_mul_right kibi (tenths_mono kibi hs)
        _ = 10 * mebi := by rw [tenths_mul 1024 (by decide) (by decide)]; rfl
  have habove : mebi ≤ t → 10 * mebi ≤ tenths t mebi * mebi := by
    intro ht
    calc 10 * mebi
        _ = tenths (1 * mebi) mebi * mebi := by rw [tenths_mul 1 (by decide) (by decide)]
        _ ≤ tenths t mebi * mebi := Nat.mul_le_mul_right mebi (tenths_mono mebi (by omega))
  rcases Nat.lt_or_ge t kibi with ht | ht
  · rw [weight, weight, if_pos (Nat.lt_of_le_of_lt h ht), if_pos ht]
    exact Nat.mul_le_mul_left 10 h
  · rcases Nat.lt_or_ge t mebi with ht' | ht'
    · rw [weight, weight, if_neg (Nat.not_lt.2 ht), if_pos ht',
        if_pos (Nat.lt_of_le_of_lt h ht')]
      split
      · next hs => exact Nat.le_trans (Nat.mul_le_mul_left 10 hs.le) (hkibi ht)
      · exact hmono kibi
    · have hle : kibi ≤ mebi := by decide
      rw [weight, weight, if_neg (Nat.not_lt.2 ht), if_neg (Nat.not_lt.2 ht')]
      split
      · next hs =>
        exact Nat.le_trans (Nat.mul_le_mul_left 10 (hs.le.trans hle)) (habove ht')
      · split
        · next hs => exact Nat.le_trans (hbelow hs.le) (habove ht')
        · exact hmono mebi

/-! ### Displayed sizes -/

/-- **Displayed sizes.**  Every size of 64 bits is displayed as a text that can be read, and what is
read is accurate; of two sizes the greater one never shows less. -/
theorem sizes_shown (s : UInt64) :
    ∃ reading, read? (text s.toNat) = some reading ∧ Shows s.toNat reading ∧
      ∀ t : UInt64, s ≤ t → ∃ reading', read? (text t.toNat) = some reading' ∧
        Shows t.toNat reading' ∧ reading.bytes ≤ reading'.bytes := by
  refine ⟨shown s.toNat, read?_text _, shows_shown s.toNat_lt, fun t h => ?_⟩
  refine ⟨shown t.toNat, read?_text _, shows_shown t.toNat_lt, ?_⟩
  have hweight : (weight s.toNat : ℚ) ≤ weight t.toNat := by
    exact_mod_cast weight_mono (UInt64.le_iff_toNat_le.1 h)
  rw [bytes_shown, bytes_shown]
  linarith

/-- Where the suffix changes, and at the greatest size, which no double stands for. -/
theorem sizes_shown_steps :
    text 1048575 = "1024.0k".toList ∧ text 1048576 = "1.0m".toList ∧
      text 18446744073709551615 = "17592186044416.0m".toList ∧
      ∃ kibis mebis most : Reading, read? "1024.0k".toList = some kibis ∧
        read? "1.0m".toList = some mebis ∧ read? "17592186044416.0m".toList = some most ∧
        kibis.bytes ≤ mebis.bytes ∧ mebis.bytes ≤ most.bytes := by
  have hkibis : text 1048575 = "1024.0k".toList := by decide +kernel
  have hmebis : text 1048576 = "1.0m".toList := by decide +kernel
  have hmost : text 18446744073709551615 = "17592186044416.0m".toList := by decide +kernel
  obtain ⟨kibis, hread, -, hup⟩ := sizes_shown 1048575
  obtain ⟨mebis, hread', -, hle⟩ := hup 1048576 (by decide)
  obtain ⟨other, hother, -, hup'⟩ := sizes_shown 1048576
  obtain ⟨most, hlast, -, hle'⟩ := hup' 18446744073709551615 (by decide)
  obtain rfl : mebis = other := Option.some.inj (hread'.symm.trans hother)
  exact ⟨hkibis, hmebis, hmost, kibis, mebis, most, hkibis ▸ hread, hmebis ▸ hread',
    hmost ▸ hlast, hle, hle'⟩

end Size

end SiteServer
