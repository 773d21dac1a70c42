import SiteServer.Site.Listing

/-!
# Dates

Seconds since the beginning of 1970 as a date and a time of day in the Gregorian calendar, counted
in universal time.  A year is taken to begin in March, so that a leap day is the last day of its
year; four hundred of these years are one era of always the same length.  Listings that are made in
this zone show such dates; nothing that is said of listings depends on it.
-/

namespace SiteServer

namespace Calendar

/-- A point in time with a resolution of one second. -/
structure Moment where
  year : Int
  month : Nat
  day : Nat
  hour : Nat
  minute : Nat
  second : Nat
  deriving DecidableEq, Repr

/-- Days in four hundred years. -/
def eraDays : Nat := 146097

/-- Seconds in a day. -/
def daySeconds : Nat := 86400

/-- Days from the first of March of the year 0 to the first of January 1970. -/
def epochDays : Int := 719468

/-- The year of an era that a day of it lies in, counted from March. -/
def yearOfEra (day : Nat) : Nat :=
  (day - day / 1460 + day / 36524 - day / 146096) / 365

/-- The date of the day that lies `days` after the beginning of 1970. -/
def date (days : Int) : Int × Nat × Nat :=
  let shifted := days + epochDays
  let era := shifted / eraDays
  let day := (shifted % eraDays).toNat
  let year := yearOfEra day
  let dayOfYear := day - (365 * year + year / 4 - year / 100)
  let monthFromMarch := (5 * dayOfYear + 2) / 153
  let dayOfMonth := dayOfYear - (153 * monthFromMarch + 2) / 5 + 1
  let month := if monthFromMarch < 10 then monthFromMarch + 3 else monthFromMarch - 9
  let marchYear := era * 400 + year
  (if month ≤ 2 then marchYear + 1 else marchYear, month, dayOfMonth)

/-- The moment that lies `seconds` after the beginning of 1970. -/
def moment (seconds : Int) : Moment :=
  let (year, month, day) := date (seconds / daySeconds)
  let second := (seconds % daySeconds).toNat
  { year, month, day
    hour := second / 3600
    minute := second / 60 % 60
    second := second % 60 }

/-- A year in four digits; one outside of 0 to 9999 has a sign and as many digits as it needs. -/
def writeYear (year : Int) : Text :=
  if 0 ≤ year ∧ year ≤ 9999 then Decimal.writePadded 4 year.toNat
  else (if year < 0 then '-' else '+') :: Decimal.writePadded 4 year.natAbs

/-- A moment as a listing shows it: month, day and year, then the time of day. -/
def Moment.text (m : Moment) : Text :=
  Decimal.writePadded 2 m.month ++ '/' :: Decimal.writePadded 2 m.day ++ '/' :: writeYear m.year
    ++ ' ' :: Decimal.writePadded 2 m.hour ++ ':' :: Decimal.writePadded 2 m.minute
    ++ ':' :: Decimal.writePadded 2 m.second

/-! ## The zone of universal time -/

theorem isDigit_of_mem_writePadded {width n : Nat} {c : Char}
    (h : c ∈ Decimal.writePadded width n) : c.isDigit = true := by
  rcases List.mem_append.1 h with hzero | hdigit
  · rw [List.eq_of_mem_replicate hzero]
    decide
  · exact Nat.isDigit_of_mem_toDigits (by decide) (by decide) hdigit

/-- Only a year that does not have four digits is written with a sign. -/
theorem plain_writeYear {year : Int} {c : Char} (h : c ∈ writeYear year) :
    c.isDigit = true ∨ c ∈ ['/', ' ', ':', '+', '-'] := by
  unfold writeYear at h
  split at h
  · exact .inl (isDigit_of_mem_writePadded h)
  · rcases List.mem_cons.1 h with rfl | hdigit
    · split <;> simp
    · exact .inl (isDigit_of_mem_writePadded hdigit)

theorem Moment.plain_text {m : Moment} {c : Char} (h : c ∈ m.text) :
    c.isDigit = true ∨ c ∈ ['/', ' ', ':', '+', '-'] := by
  simp only [Moment.text, List.mem_append, List.mem_cons] at h
  rcases h with
    ((((hmonth | rfl | hday) | rfl | hyear) | rfl | hhour) | rfl | hminute) | rfl | hsecond
  · exact .inl (isDigit_of_mem_writePadded hmonth)
  · simp
  · exact .inl (isDigit_of_mem_writePadded hday)
  · simp
  · exact plain_writeYear hyear
  · simp
  · exact .inl (isDigit_of_mem_writePadded hhour)
  · simp
  · exact .inl (isDigit_of_mem_writePadded hminute)
  · simp
  · exact .inl (isDigit_of_mem_writePadded hsecond)

end Calendar

/-- Universal time, by which a moment is written alike everywhere. -/
def Zone.universal : Zone where
  text seconds := (Calendar.moment seconds).text
  plain _ _ := Calendar.Moment.plain_text

end SiteServer
