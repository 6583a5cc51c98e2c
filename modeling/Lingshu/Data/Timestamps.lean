import Lingshu.Data.EditLog
import Lingshu.Json.RoundTrip
import Mathlib.Tactic.NormNum

/-! # Time stamps

`datetime.fromisoformat` reads what `isoformat` writes, to the microsecond and with its offset. -/
namespace Lingshu.Data.DateTime
open Json
set_option autoImplicit false

/-- What every `datetime` is: in the years 1 to 9999, and with an offset of less than a day. -/
structure Valid (t : DateTime) : Prop where
  clock : 0 ≤ t.clock ∧ t.clock < 315537897600000000
  offset : ∀ offset ∈ t.offset, -86400000000 < offset ∧ offset < 86400000000

/-! ## The calendar -/

def leap (year : ℤ) : Bool := year % 4 = 0 ∧ (year % 100 ≠ 0 ∨ year % 400 = 0)

/-- `_days_before_month` and `_days_in_month`. -/
def daysBefore (leap : Bool) (month : ℤ) : ℤ :=
  daysBeforeMonth.getD (month.toNat - 1) 0 + if month > 2 ∧ leap then 1 else 0

def daysIn (leap : Bool) (month : ℤ) : ℤ :=
  daysInMonth.getD (month.toNat - 1) 0 + if month = 2 ∧ leap then 1 else 0

/-- `_ymd2ord`. -/
def ymdToOrd (year month day : ℤ) : ℤ :=
  let y := year - 1
  y * 365 + y / 4 - y / 100 + y / 400 + daysBefore (leap year) month + day

/-- The month and the day of a day of the year, counted from zero, as `_ord2ymd` finds them. -/
def monthDay (leap : Bool) (n : ℤ) : ℤ × ℤ :=
  let month := (n + 50) / 32
  if daysBefore leap month > n then
    (month - 1, n - (daysBefore leap month - daysIn leap (month - 1)) + 1)
  else (month, n - daysBefore leap month + 1)

/-- A date that exists. -/
structure IsDate (year month day : ℤ) : Prop where
  inYears : 1 ≤ year ∧ year ≤ 9999
  inYear : 1 ≤ month ∧ month ≤ 12
  inMonth : 1 ≤ day ∧ day ≤ daysIn (leap year) month

theorem monthDay_table : ∀ n < 365, ∀ leap : Bool,
    (1 ≤ (monthDay leap (n : ℕ)).1 ∧ (monthDay leap n).1 ≤ 12) ∧
      (1 ≤ (monthDay leap n).2 ∧ (monthDay leap n).2 ≤ daysIn leap (monthDay leap n).1) ∧
      daysBefore leap (monthDay leap n).1 + (monthDay leap n).2 = n + 1 := by
  decide +kernel

/-- The numbers of cycles of 400, 100 and 4 years and of years before a day, and the days left. -/
structure Cycles (ordinal n400 n100 n4 n1 n : ℤ) : Prop where
  sum : ordinal = n400 * 146097 + n100 * 36524 + n4 * 1461 + n1 * 365 + n + 1
  centuries : 0 ≤ n100 ∧ n100 ≤ 4
  quads : 0 ≤ n4 ∧ n4 ≤ 24
  years : 0 ≤ n1 ∧ n1 ≤ 4
  days : 0 ≤ n ∧ n < 365
  -- The last day of 400 years, and of 4 years.
  century : n100 = 4 → n4 = 0 ∧ n1 = 0 ∧ n = 0
  quad : n1 = 4 → n = 0 ∧ n4 ≠ 24

theorem cycles (ordinal : ℤ) : Cycles ordinal ((ordinal - 1) / 146097) ((ordinal - 1) % 146097 / 36524)
    ((ordinal - 1) % 146097 % 36524 / 1461) ((ordinal - 1) % 146097 % 36524 % 1461 / 365)
    ((ordinal - 1) % 146097 % 36524 % 1461 % 365) := by
  constructor <;> omega

theorem ordToYmd_eq (ordinal : ℤ) : ordToYmd ordinal =
    let n400 := (ordinal - 1) / 146097
    let n100 := (ordinal - 1) % 146097 / 36524
    let n4 := (ordinal - 1) % 146097 % 36524 / 1461
    let n1 := (ordinal - 1) % 146097 % 36524 % 1461 / 365
    let n := (ordinal - 1) % 146097 % 36524 % 1461 % 365
    let year := n400 * 400 + 1 + n100 * 100 + n4 * 4 + n1
    if n1 = 4 ∨ n100 = 4 then (year - 1, 12, 31)
    else (year, monthDay (n1 = 3 ∧ (n4 ≠ 24 ∨ n100 = 3)) n) := by
  simp only [ordToYmd, monthDay, daysBefore, daysIn, decide_eq_true_eq]
  split_ifs <;> rfl

section Years
variable {a b c e : ℤ} (hb : 0 ≤ b ∧ b ≤ 3) (hc : 0 ≤ c ∧ c ≤ 24) (he : 0 ≤ e ∧ e ≤ 3)
include hb hc he

theorem leap_cycles : leap (a * 400 + 1 + b * 100 + c * 4 + e) = decide (e = 3 ∧ (c ≠ 24 ∨ b = 3)) := by
  rw [leap, decide_eq_decide]
  omega

theorem ymdToOrd_cycles (month day : ℤ) : ymdToOrd (a * 400 + 1 + b * 100 + c * 4 + e) month day =
    a * 146097 + b * 36524 + c * 1461 + e * 365 + (daysBefore (decide (e = 3 ∧ (c ≠ 24 ∨ b = 3))) month + day) := by
  rw [ymdToOrd, leap_cycles hb hc he]
  omega

end Years

/-- The last day of a leap year. -/
theorem isDate_lastDay {a b c : ℤ} (hb : 0 ≤ b ∧ b ≤ 3) (hc : 0 ≤ c ∧ c ≤ 24) (hleap : c ≠ 24 ∨ b = 3)
    (hyear : 1 ≤ a * 400 + 1 + b * 100 + c * 4 + 3 ∧ a * 400 + 1 + b * 100 + c * 4 + 3 ≤ 9999) :
    IsDate (a * 400 + 1 + b * 100 + c * 4 + 3) 12 31 ∧
      ymdToOrd (a * 400 + 1 + b * 100 + c * 4 + 3) 12 31 = a * 146097 + b * 36524 + c * 1461 + 1461 := by
  have he : (0 : ℤ) ≤ 3 ∧ (3 : ℤ) ≤ 3 := by decide
  have htrue : decide ((3 : ℤ) = 3 ∧ (c ≠ 24 ∨ b = 3)) = true := decide_eq_true ⟨rfl, hleap⟩
  refine ⟨⟨hyear, by decide, ?_⟩, ?_⟩
  · rw [leap_cycles hb hc he, htrue]
    decide
  · have hbefore : daysBefore true 12 = 335 := rfl
    rw [ymdToOrd_cycles hb hc he, htrue, hbefore]
    omega

theorem ordToYmd_spec {ordinal : ℤ} (h : 1 ≤ ordinal ∧ ordinal ≤ 3652059) :
    IsDate (ordToYmd ordinal).1 (ordToYmd ordinal).2.1 (ordToYmd ordinal).2.2 ∧
      ymdToOrd (ordToYmd ordinal).1 (ordToYmd ordinal).2.1 (ordToYmd ordinal).2.2 = ordinal := by
  have hcycles := cycles ordinal
  rw [ordToYmd_eq]
  revert hcycles
  generalize (ordinal - 1) / 146097 = n400
  generalize (ordinal - 1) % 146097 / 36524 = n100
  generalize (ordinal - 1) % 146097 % 36524 / 1461 = n4
  generalize (ordinal - 1) % 146097 % 36524 % 1461 / 365 = n1
  generalize (ordinal - 1) % 146097 % 36524 % 1461 % 365 = n
  rintro ⟨hsum, hn100, hn4, hn1, hn, hcentury, hquad⟩
  dsimp only
  split
  next hlast =>
    by_cases hn1' : n1 = 4
    · obtain ⟨hzero, hne⟩ := hquad hn1'
      have hyear : n400 * 400 + 1 + n100 * 100 + n4 * 4 + n1 - 1 = n400 * 400 + 1 + n100 * 100 + n4 * 4 + 3 := by omega
      obtain ⟨hdate, hord⟩ := isDate_lastDay (a := n400) (b := n100) (c := n4) (by omega) hn4 (.inl hne) (by omega)
      dsimp only
      rw [hyear]
      exact ⟨hdate, hord.trans (by omega)⟩
    · obtain ⟨h4, h1, hzero⟩ := hcentury (hlast.resolve_left hn1')
      have hyear : n400 * 400 + 1 + n100 * 100 + n4 * 4 + n1 - 1 = n400 * 400 + 1 + 3 * 100 + 24 * 4 + 3 := by omega
      obtain ⟨hdate, hord⟩ := isDate_lastDay (a := n400) (b := 3) (c := 24) (by decide) (by decide) (.inr rfl)
        (by omega)
      dsimp only
      rw [hyear]
      exact ⟨hdate, hord.trans (by omega)⟩
  next hlast =>
    rw [not_or] at hlast
    obtain ⟨k, rfl⟩ := Int.eq_ofNat_of_zero_le hn.1
    obtain ⟨hmonth, hday, hbefore⟩ := monthDay_table k (by omega) (decide (n1 = 3 ∧ (n4 ≠ 24 ∨ n100 = 3)))
    have hleap := leap_cycles (a := n400) (b := n100) (c := n4) (e := n1) (by omega) hn4 (by omega)
    refine ⟨⟨by dsimp only; omega, hmonth, ?_⟩, ?_⟩
    · dsimp only
      rw [hleap]
      exact hday
    · dsimp only
      rw [ymdToOrd_cycles (by omega) hn4 (by omega), hbefore]
      omega

/-! ## Reading -/

def readNumber (width : ℕ) (cs : List Char) : Option (ℤ × List Char) :=
  let digits := cs.take width
  if digits.length = width ∧ digits.all Char.isDigit then some (digitsValue digits, cs.drop width) else none

def skip (c : Char) : List Char → Option (List Char)
  | c' :: cs => if c' = c then some cs else none
  | [] => none

/-- `YYYY-MM-DD`, as an ordinal. -/
def readDate (cs : List Char) : Option (ℤ × List Char) := do
  let (year, cs) ← readNumber 4 cs
  let cs ← skip '-' cs
  let (month, cs) ← readNumber 2 cs
  let cs ← skip '-' cs
  let (day, cs) ← readNumber 2 cs
  if 1 ≤ year ∧ 1 ≤ month ∧ month ≤ 12 ∧ 1 ≤ day ∧ day ≤ daysIn (leap year) month then
    some (ymdToOrd year month day, cs)
  else none

/-- The seconds and microseconds of a time, either of which may be left out. -/
def readSeconds : List Char → Option (ℤ × ℤ × List Char)
  | ':' :: cs => do
    let (second, cs) ← readNumber 2 cs
    match cs with
    | '.' :: cs =>
      let (micros, cs) ← readNumber 6 cs
      some (second, micros, cs)
    | cs => some (second, 0, cs)
  | cs => some (0, 0, cs)

/-- `HH:MM`, `HH:MM:SS` or `HH:MM:SS.ffffff`, in microseconds. -/
def readTime (cs : List Char) : Option (ℤ × List Char) := do
  let (hour, cs) ← readNumber 2 cs
  let cs ← skip ':' cs
  let (minute, cs) ← readNumber 2 cs
  let (second, micros, cs) ← readSeconds cs
  if hour < 24 ∧ minute < 60 ∧ second < 60 then some (((hour * 60 + minute) * 60 + second) * 1000000 + micros, cs)
  else none

def readOffset : List Char → Option (Option ℤ)
  | [] => some none
  | sign :: cs => do
    let (offset, rest) ← readTime cs
    if rest = [] then
      if sign = '+' then some (some offset) else if sign = '-' then some (some (-offset)) else none
    else none

/-- `datetime.fromisoformat`, of the forms that `isoformat` writes. -/
def fromisoformat (text : String) : Option DateTime := do
  let (ordinal, cs) ← readDate text.toList
  let cs ← skip 'T' cs
  let (micros, cs) ← readTime cs
  let offset ← readOffset cs
  some ⟨(ordinal - 1) * 86400000000 + micros, offset⟩

example : fromisoformat "2026-03-13T10:00:00.000001-03:30" = some ⟨63908992800000001, some (-12600000000)⟩ := by
  decide +kernel

section Reading
variable {rest : List Char}

/-- The digits of a number, after zeros. -/
def padded (width n : ℕ) : List Char :=
  List.replicate (width - (Nat.toDigits 10 n).length) '0' ++ Nat.toDigits 10 n

theorem toList_pad (width : ℕ) (n : ℤ) : (pad width n).toList = padded width n.toNat := by
  have hdigits : (toString n.toNat).toList = Nat.toDigits 10 n.toNat := Nat.toList_repr
  rw [pad, String.toList_append, String.toList_ofList, hdigits, padded, ← String.length_toList, hdigits]

theorem length_padded {width n : ℕ} (hwidth : 0 < width) (hn : n < 10 ^ width) : (padded width n).length = width := by
  have hlength := (Nat.length_toDigits_le_iff (by decide) hwidth).mpr hn
  rw [padded, List.length_append, List.length_replicate, Nat.sub_add_cancel hlength]

theorem isDigit_padded {width n : ℕ} : (padded width n).all Char.isDigit = true := by
  rw [List.all_eq_true]
  intro c hc
  rcases List.mem_append.mp hc with hzero | hdigit
  · rw [List.eq_of_mem_replicate hzero]
    decide
  · exact Nat.isDigit_of_mem_toDigits (by decide) (by decide) hdigit

theorem digitsValue_padded (width n : ℕ) : digitsValue (padded width n) = n := by
  rw [digitsValue_eq, padded, Nat.ofDigitChars_append, Nat.ofDigitChars_replicate_zero, Nat.mul_zero,
    Nat.ofDigitChars_ten_toDigits]

/-- A number that fits is read as it was written. -/
theorem readNumber_pad {width : ℕ} (hwidth : 0 < width) {n : ℤ} (hn : 0 ≤ n ∧ n < 10 ^ width) :
    readNumber width ((pad width n).toList ++ rest) = some (n, rest) := by
  have hlt : n.toNat < 10 ^ width := by
    have hcast : ((n.toNat : ℕ) : ℤ) < ((10 ^ width : ℕ) : ℤ) := by
      rw [Int.toNat_of_nonneg hn.1]
      exact_mod_cast hn.2
    exact_mod_cast hcast
  have hlength := length_padded hwidth hlt
  rw [toList_pad, readNumber, List.take_left' hlength, List.drop_left' hlength,
    if_pos ⟨hlength, isDigit_padded⟩, digitsValue_padded, Int.toNat_of_nonneg hn.1]

theorem skip_cons (c : Char) : skip c (c :: rest) = some rest := if_pos rfl

/-- Two digits. -/
theorem readNumber_two {n : ℤ} (hn : 0 ≤ n ∧ n < 100) : readNumber 2 ((pad 2 n).toList ++ rest) = some (n, rest) :=
  readNumber_pad (by decide) hn

theorem daysIn_le (leap : Bool) {month : ℤ} (hmonth : 1 ≤ month ∧ month ≤ 12) : daysIn leap month ≤ 31 := by
  have htable : ∀ m < 13, ∀ leap : Bool, daysIn leap (m : ℕ) ≤ 31 := by decide
  obtain ⟨m, rfl⟩ := Int.eq_ofNat_of_zero_le (by omega : 0 ≤ month)
  exact htable m (by omega) leap

theorem readDate_date {year month day : ℤ} (h : IsDate year month day) :
    readDate ((pad 4 year).toList ++ '-' :: ((pad 2 month).toList ++ '-' :: ((pad 2 day).toList ++ rest))) =
      some (ymdToOrd year month day, rest) := by
  have hyear : readNumber 4 ((pad 4 year).toList ++
      '-' :: ((pad 2 month).toList ++ '-' :: ((pad 2 day).toList ++ rest))) = _ :=
    readNumber_pad (by decide) ⟨by have := h.inYears.1; omega, by have := h.inYears.2; omega⟩
  have hdays := daysIn_le (leap year) h.inYear
  have hmonth := h.inYear
  have hday := h.inMonth
  simp only [readDate, hyear, Option.bind_eq_bind, Option.bind_some, skip_cons, readNumber_two (n := month) (by omega),
    readNumber_two (n := day) (by omega)]
  exact if_pos ⟨h.inYears.1, hmonth.1, hmonth.2, hday.1, hday.2⟩

section Times
variable {hour minute second micros : ℤ} (hhour : 0 ≤ hour ∧ hour < 24) (hminute : 0 ≤ minute ∧ minute < 60)

/-- The text goes on with something else. -/
def NotNext (c : Char) (rest : List Char) : Prop := ∀ c' ∈ rest.head?, c' ≠ c

theorem readSeconds_none (hnext : NotNext ':' rest) : readSeconds rest = some (0, 0, rest) := by
  unfold readSeconds
  split
  next cs => exact absurd rfl (hnext ':' rfl)
  next => rfl

theorem readSeconds_whole (hsecond : 0 ≤ second ∧ second < 60) (hnext : NotNext '.' rest) :
    readSeconds (':' :: ((pad 2 second).toList ++ rest)) = some (second, 0, rest) := by
  simp only [readSeconds, readNumber_two (n := second) (by omega), Option.bind_eq_bind, Option.bind_some]
  split
  next cs => exact absurd rfl (hnext '.' rfl)
  next => rfl

theorem readSeconds_micros (hsecond : 0 ≤ second ∧ second < 60) (hmicros : 0 ≤ micros ∧ micros < 1000000) :
    readSeconds (':' :: ((pad 2 second).toList ++ '.' :: ((pad 6 micros).toList ++ rest))) =
      some (second, micros, rest) := by
  have hread : readNumber 6 ((pad 6 micros).toList ++ rest) = some (micros, rest) := readNumber_pad (by decide) hmicros
  simp only [readSeconds, readNumber_two (n := second) (by omega), Option.bind_eq_bind, Option.bind_some, hread]

include hhour hminute in
theorem readTime_of_seconds {tail : List Char} (hsecond : 0 ≤ second ∧ second < 60)
    (htail : readSeconds tail = some (second, micros, rest)) :
    readTime ((pad 2 hour).toList ++ ':' :: ((pad 2 minute).toList ++ tail)) =
      some (((hour * 60 + minute) * 60 + second) * 1000000 + micros, rest) := by
  simp only [readTime, readNumber_two (n := hour) (by omega), readNumber_two (n := minute) (by omega), skip_cons,
    Option.bind_eq_bind, Option.bind_some, htail]
  exact if_pos ⟨hhour.2, hminute.2, hsecond.2⟩

end Times
theorem notNext_nil (c : Char) : NotNext c [] := fun _ hc => by cases hc

/-! ### Offsets -/

theorem readOffset_sign {sign : Char} {cs : List Char} {offset : ℤ} (hread : readTime cs = some (offset, []))
    (hsign : sign = '+' ∨ sign = '-') :
    readOffset (sign :: cs) = some (some (if sign = '-' then -offset else offset)) := by
  simp only [readOffset, hread, Option.bind_eq_bind, Option.bind_some, if_pos]
  rcases hsign with rfl | rfl <;> rfl

/-- The time of day, or the offset, of so many microseconds. -/
theorem readTime_offset {off : ℤ} (hoff : 0 ≤ off ∧ off < 86400000000) {tail : List Char}
    (htail : (off % 60000000 = 0 ∧ tail = []) ∨
      (off % 1000000 = 0 ∧ tail = ':' :: (pad 2 (off / 1000000 % 60)).toList) ∨
      tail = ':' :: ((pad 2 (off / 1000000 % 60)).toList ++ '.' :: (pad 6 (off % 1000000)).toList)) :
    readTime ((pad 2 (off / 1000000 / 3600)).toList ++ ':' :: ((pad 2 (off / 1000000 / 60 % 60)).toList ++ tail)) =
      some (off, []) := by
  have hhour : 0 ≤ off / 1000000 / 3600 ∧ off / 1000000 / 3600 < 24 := by omega
  have hminute : 0 ≤ off / 1000000 / 60 % 60 ∧ off / 1000000 / 60 % 60 < 60 := by omega
  have hsecond : 0 ≤ off / 1000000 % 60 ∧ off / 1000000 % 60 < 60 := by omega
  rcases htail with ⟨hwhole, rfl⟩ | ⟨hwhole, rfl⟩ | rfl
  · rw [readTime_of_seconds hhour hminute (by decide) (readSeconds_none (notNext_nil ':'))]
    have hsum : ((off / 1000000 / 3600 * 60 + off / 1000000 / 60 % 60) * 60 + 0) * 1000000 + 0 = off := by omega
    rw [hsum]
  · have hread := readSeconds_whole hsecond (notNext_nil '.')
    rw [List.append_nil] at hread
    rw [readTime_of_seconds hhour hminute hsecond hread]
    have hsum : ((off / 1000000 / 3600 * 60 + off / 1000000 / 60 % 60) * 60 + off / 1000000 % 60) * 1000000 + 0 =
        off := by omega
    rw [hsum]
  · have hmicros : 0 ≤ off % 1000000 ∧ off % 1000000 < 1000000 := by omega
    have hread : readSeconds (_ :: (_ ++ _ :: (_ ++ []))) = _ := readSeconds_micros hsecond hmicros
    rw [List.append_nil] at hread
    rw [readTime_of_seconds hhour hminute hsecond hread]
    have hsum : ((off / 1000000 / 3600 * 60 + off / 1000000 / 60 % 60) * 60 + off / 1000000 % 60) * 1000000 +
        off % 1000000 = off := by omega
    rw [hsum]

/-- The text of an offset, as characters. -/
theorem toList_formatOffset (offset : ℤ) : ∃ tail,
    (formatOffset (some offset)).toList = (if offset < 0 then '-' else '+') ::
      ((pad 2 ((offset.natAbs : ℤ) / 1000000 / 3600)).toList ++
        ':' :: ((pad 2 ((offset.natAbs : ℤ) / 1000000 / 60 % 60)).toList ++ tail)) ∧
    (((offset.natAbs : ℤ) % 60000000 = 0 ∧ tail = []) ∨
      ((offset.natAbs : ℤ) % 1000000 = 0 ∧ tail = ':' :: (pad 2 ((offset.natAbs : ℤ) / 1000000 % 60)).toList) ∨
      tail = ':' :: ((pad 2 ((offset.natAbs : ℤ) / 1000000 % 60)).toList ++
        '.' :: (pad 6 ((offset.natAbs : ℤ) % 1000000)).toList)) := by
  have hsign : (if offset < 0 then "-" else "+").toList = [if offset < 0 then '-' else '+'] := by
    split <;> rfl
  have hcolon : ":".toList = [':'] := rfl
  have hpoint : ".".toList = ['.'] := rfl
  unfold formatOffset
  dsimp only
  split
  next h => exact ⟨_, by simp only [String.toList_append, hsign, hcolon, List.append_assoc, List.append_nil,
      List.cons_append, List.nil_append], .inl ⟨h, rfl⟩⟩
  next =>
    split
    next h => exact ⟨_, by simp only [String.toList_append, hsign, hcolon, List.append_assoc, List.cons_append,
        List.nil_append], .inr (.inl ⟨h, rfl⟩)⟩
    next => exact ⟨_, by simp only [String.toList_append, hsign, hcolon, hpoint, List.append_assoc,
        List.cons_append, List.nil_append], .inr (.inr rfl)⟩

theorem readOffset_format {offset : Option ℤ} (h : ∀ o ∈ offset, -86400000000 < o ∧ o < 86400000000) :
    readOffset (formatOffset offset).toList = some offset := by
  cases offset with
  | none => rfl
  | some offset =>
    obtain ⟨tail, htext, htail⟩ := toList_formatOffset offset
    have hoff : 0 ≤ (offset.natAbs : ℤ) ∧ (offset.natAbs : ℤ) < 86400000000 := by
      have := h offset rfl
      omega
    rw [htext]
    by_cases hneg : offset < 0
    · rw [if_pos hneg, readOffset_sign (readTime_offset hoff htail) (.inr rfl), if_pos rfl]
      have hvalue : -(offset.natAbs : ℤ) = offset := by omega
      rw [hvalue]
    · rw [if_neg hneg, readOffset_sign (readTime_offset hoff htail) (.inl rfl), if_neg (by decide)]
      have hvalue : (offset.natAbs : ℤ) = offset := by omega
      rw [hvalue]

theorem formatOffset_notNext (offset : Option ℤ) : NotNext '.' (formatOffset offset).toList := by
  cases offset with
  | none => exact notNext_nil '.'
  | some offset =>
    obtain ⟨tail, htext, -⟩ := toList_formatOffset offset
    rw [htext]
    intro c hc
    obtain rfl := Option.some.inj hc
    split <;> decide

/-! ### Datetimes -/

/-- The text of a datetime, as characters. -/
theorem toList_isoformat (t : DateTime) : ∃ tail,
    t.isoformat.toList = (pad 4 (ordToYmd (t.clock / 1000000 / 86400 + 1)).1).toList ++
      '-' :: ((pad 2 (ordToYmd (t.clock / 1000000 / 86400 + 1)).2.1).toList ++
        '-' :: ((pad 2 (ordToYmd (t.clock / 1000000 / 86400 + 1)).2.2).toList ++
          'T' :: ((pad 2 (t.clock / 1000000 % 86400 / 3600)).toList ++
            ':' :: ((pad 2 (t.clock / 1000000 % 86400 / 60 % 60)).toList ++ tail)))) ∧
    readSeconds tail = some (t.clock / 1000000 % 86400 % 60, t.clock % 1000000, (formatOffset t.offset).toList) := by
  have hdash : "-".toList = ['-'] := rfl
  have hcolon : ":".toList = [':'] := rfl
  have hpoint : ".".toList = ['.'] := rfl
  have htime : "T".toList = ['T'] := rfl
  have hsecond : 0 ≤ t.clock / 1000000 % 86400 % 60 ∧ t.clock / 1000000 % 86400 % 60 < 60 := by omega
  by_cases hmicros : t.clock % 1000000 = 0
  · refine ⟨':' :: ((pad 2 (t.clock / 1000000 % 86400 % 60)).toList ++ (formatOffset t.offset).toList), ?_, ?_⟩
    · simp only [isoformat, if_pos hmicros, String.toList_append, hdash, hcolon, htime, List.append_assoc,
        List.cons_append, List.nil_append, String.toList_empty]
    · rw [hmicros]
      exact readSeconds_whole hsecond (formatOffset_notNext t.offset)
  · refine ⟨':' :: ((pad 2 (t.clock / 1000000 % 86400 % 60)).toList ++
      '.' :: ((pad 6 (t.clock % 1000000)).toList ++ (formatOffset t.offset).toList)), ?_, ?_⟩
    · simp only [isoformat, if_neg hmicros, String.toList_append, hdash, hcolon, hpoint, htime, List.append_assoc,
        List.cons_append, List.nil_append]
    · exact readSeconds_micros hsecond (by omega)

end Reading

/-- A datetime is read as it was written. -/
theorem fromisoformat_isoformat {t : DateTime} (h : t.Valid) : fromisoformat t.isoformat = some t := by
  obtain ⟨hclock, hoffset⟩ := h
  obtain ⟨tail, htext, htail⟩ := toList_isoformat t
  have hdays : 1 ≤ t.clock / 1000000 / 86400 + 1 ∧ t.clock / 1000000 / 86400 + 1 ≤ 3652059 := by omega
  obtain ⟨hdate, hordinal⟩ := ordToYmd_spec hdays
  have hhour : 0 ≤ t.clock / 1000000 % 86400 / 3600 ∧ t.clock / 1000000 % 86400 / 3600 < 24 := by omega
  have hminute : 0 ≤ t.clock / 1000000 % 86400 / 60 % 60 ∧ t.clock / 1000000 % 86400 / 60 % 60 < 60 := by omega
  have htime := readTime_of_seconds hhour hminute (by omega) htail
  simp only [fromisoformat, htext, readDate_date hdate, hordinal, Option.bind_eq_bind, Option.bind_some, skip_cons,
    htime, readOffset_format hoffset]
  have hsum : (t.clock / 1000000 / 86400 + 1 - 1) * 86400000000 +
      (((t.clock / 1000000 % 86400 / 3600 * 60 + t.clock / 1000000 % 86400 / 60 % 60) * 60 +
        t.clock / 1000000 % 86400 % 60) * 1000000 + t.clock % 1000000) = t.clock := by omega
  rw [hsum]

end Lingshu.Data.DateTime
