import AgentHub.Cloud.Dates
import Mathlib.Data.Option.Basic

/-!
# Reading back what `toISOString` writes

`isoDates` is a `Date.parse` that reads the one form the language prescribes and no other text.  The
calendar is undone by counting days (`daysFromCivil_civilFromDays`), and every number of the text has
a fixed width.
-/

namespace AgentHub.Cloud

/-! ### The calendar -/

/-- The day of the year, from March on. -/
def dayOfYear (month day : Nat) : Nat :=
  (153 * (if month ≤ 2 then month + 9 else month - 3) + 2) / 5 + (day - 1)

/-- The day of a date, counted from 1970-01-01. -/
def daysFromCivil (date : CivilDate) : Int :=
  let year := date.year - (if date.month ≤ 2 then 1 else 0)
  let inFour := (year % 400).toNat
  year / 400 * 146097 +
    (365 * inFour + inFour / 4 - inFour / 100 + dayOfYear date.month date.day : Nat) - 719468

theorem yearAndDay_spec {n : Nat} (h : n < 146097) :
    (yearAndDay n).2 ≤ 365 ∧ (yearAndDay n).1 ≤ 399 ∧
      365 * (yearAndDay n).1 + (yearAndDay n).1 / 4 - (yearAndDay n).1 / 100 + (yearAndDay n).2 =
        n := by
  unfold yearAndDay
  extract_lets century inCentury quad inQuad year
  have hcentury : century ≤ 3 ∧ 36524 * century ≤ n ∧ n ≤ 36524 * century + 36524 := by omega
  have hquad : quad ≤ 24 ∧ 1461 * quad ≤ inCentury ∧ inCentury ≤ 1461 * quad + 1460 := by omega
  have hyear : year ≤ 3 ∧ 365 * year ≤ inQuad ∧ inQuad ≤ 365 * year + 365 := by omega
  have hfours : (100 * century + 4 * quad + year) / 4 = 25 * century + quad := by omega
  have hhundreds : (100 * century + 4 * quad + year) / 100 = century := by omega
  refine ⟨by omega, by omega, ?_⟩
  rw [hfours, hhundreds]
  omega

theorem monthAndDay_spec {n : Nat} (h : n ≤ 365) :
    (monthAndDay n).1 ≤ 12 ∧ (monthAndDay n).2 ≤ 31 ∧
      dayOfYear (monthAndDay n).1 (monthAndDay n).2 = n := by
  unfold monthAndDay dayOfYear
  extract_lets m
  have hm : m ≤ 11 ∧ (153 * m + 2) / 5 ≤ n ∧ n - (153 * m + 2) / 5 ≤ 30 := by omega
  have hfromMarch : (if (if m < 10 then m + 3 else m - 9) ≤ 2 then
      (if m < 10 then m + 3 else m - 9) + 9 else (if m < 10 then m + 3 else m - 9) - 3) = m := by
    split_ifs <;> omega
  refine ⟨?_, by omega, ?_⟩
  · show (if m < 10 then m + 3 else m - 9) ≤ 12
    split_ifs <;> omega
  · simp only [hfromMarch]
    omega

theorem civilFromDays_bounds (days : Int) :
    (civilFromDays days).month ≤ 12 ∧ (civilFromDays days).day ≤ 31 := by
  have hlt : ((days + 719468) % 146097).toNat < 146097 := by omega
  obtain ⟨hmonth, hday, -⟩ := monthAndDay_spec (yearAndDay_spec hlt).1
  exact ⟨hmonth, hday⟩

/-- A year of some four centuries is found again. -/
theorem daysFromCivil_mk {year : Nat} (h : year ≤ 399) (q : Int) (month day : Nat) :
    daysFromCivil ⟨year + q * 400 + (if month ≤ 2 then 1 else 0), month, day⟩ =
      q * 146097 + (365 * year + year / 4 - year / 100 + dayOfYear month day : Nat) - 719468 := by
  have hsplit : ∀ leap : Int, ((year + q * 400 + leap - leap) % 400).toNat = year ∧
      (year + q * 400 + leap - leap) / 400 = q := by
    intro leap
    omega
  simp only [daysFromCivil]
  rw [(hsplit _).1, (hsplit _).2]

theorem daysFromCivil_civilFromDays (days : Int) : daysFromCivil (civilFromDays days) = days := by
  have hlt : ((days + 719468) % 146097).toNat < 146097 := by omega
  obtain ⟨hinYear, hyear, hday⟩ := yearAndDay_spec hlt
  obtain ⟨-, -, hmonth⟩ := monthAndDay_spec hinYear
  have hmk := daysFromCivil_mk hyear ((days + 719468) / 146097)
    (monthAndDay (yearAndDay ((days + 719468) % 146097).toNat).2).1
    (monthAndDay (yearAndDay ((days + 719468) % 146097).toNat).2).2
  rw [hmonth, hday] at hmk
  have heq : (days + 719468) / 146097 * 146097 + (((days + 719468) % 146097).toNat : Int) - 719468 =
      days := by omega
  exact hmk.trans heq

/-! ### The text -/

/-- So many digits at the front of a text. -/
def readDigits (n : Nat) (cs : List Char) : Option (Nat × List Char) :=
  if (cs.take n).length = n ∧ (cs.take n).all Char.isDigit then
    some (Nat.ofDigitChars 10 (cs.take n) 0, cs.drop n)
  else none

theorem length_padded {width n : Nat} (hwidth : 0 < width) (h : n < 10 ^ width) :
    (padded width n).length = width := by
  have hlen := (Nat.length_toDigits_le_iff (by decide : 1 < 10) hwidth).2 h
  rw [padded, List.length_append, List.length_replicate]
  omega

theorem readDigits_padded {width n : Nat} (hwidth : 0 < width) (h : n < 10 ^ width)
    (rest : List Char) : readDigits width (padded width n ++ rest) = some (n, rest) := by
  have hlen := length_padded hwidth h
  have htake : (padded width n ++ rest).take width = padded width n := List.take_left' hlen
  have hdrop : (padded width n ++ rest).drop width = rest := List.drop_left' hlen
  have hdigits : (padded width n).all Char.isDigit = true := by
    rw [padded, List.all_append, Bool.and_eq_true, List.all_eq_true, List.all_eq_true]
    constructor
    · intro c hc
      rw [(List.mem_replicate.1 hc).2]
      rfl
    · intro c hc
      exact Nat.isDigit_of_mem_toDigits (by decide) (by decide) hc
  have hvalue : Nat.ofDigitChars 10 (padded width n) 0 = n := by
    rw [padded, Nat.ofDigitChars_append, Nat.ofDigitChars_replicate_zero, Nat.mul_zero,
      Nat.ofDigitChars_ten_toDigits]
  rw [readDigits, htake, hdrop, hvalue, if_pos ⟨hlen, hdigits⟩]

/-- A character at the front of a text. -/
def readChar (c : Char) : List Char → Option (List Char)
  | [] => none
  | d :: cs => if d = c then some cs else none

theorem readChar_cons (c : Char) (cs : List Char) : readChar c (c :: cs) = some cs := if_pos rfl

def readYear (cs : List Char) : Option (Int × List Char) :=
  match cs with
  | '+' :: cs => (readDigits 6 cs).map fun x => ((x.1 : Int), x.2)
  | '-' :: cs => (readDigits 6 cs).map fun x => (-(x.1 : Int), x.2)
  | cs => (readDigits 4 cs).map fun x => ((x.1 : Int), x.2)

theorem readYear_yearText {year : Int} (h : year.natAbs < 10 ^ 6) (rest : List Char) :
    readYear (yearText year ++ rest) = some (year, rest) := by
  unfold yearText
  split_ifs with hfour hneg
  · have hlt : year.toNat < 10 ^ 4 := by omega
    have hread := readDigits_padded (by decide : 0 < 4) hlt rest
    have hhead : ∀ c cs, padded 4 year.toNat ++ rest = c :: cs → c.isDigit = true := by
      intro c cs hc
      rw [hc, readDigits] at hread
      split at hread
      case isTrue hd => exact List.all_eq_true.1 hd.2 c (by simp)
      case isFalse => cases hread
    unfold readYear
    split
    case h_1 cs hcs => exact absurd (hhead _ _ hcs) (by decide)
    case h_2 cs hcs => exact absurd (hhead _ _ hcs) (by decide)
    case h_3 =>
      rw [hread, Option.map_some, Int.toNat_of_nonneg hfour.1]
  · show (readDigits 6 (padded 6 year.natAbs ++ rest)).map _ = _
    rw [readDigits_padded (by decide) h, Option.map_some]
    exact congrArg some (Prod.ext (by simp only; omega) rfl)
  · show (readDigits 6 (padded 6 year.natAbs ++ rest)).map _ = _
    rw [readDigits_padded (by decide) h, Option.map_some]
    exact congrArg some (Prod.ext (by simp only; omega) rfl)

/-- A reader of the form `toISOString` writes. -/
def parseIso (s : String) : Option Int := do
  let (year, cs) ← readYear s.toList
  let cs ← readChar '-' cs
  let (month, cs) ← readDigits 2 cs
  let cs ← readChar '-' cs
  let (day, cs) ← readDigits 2 cs
  let cs ← readChar 'T' cs
  let (hour, cs) ← readDigits 2 cs
  let cs ← readChar ':' cs
  let (minute, cs) ← readDigits 2 cs
  let cs ← readChar ':' cs
  let (second, cs) ← readDigits 2 cs
  let cs ← readChar '.' cs
  let (milli, cs) ← readDigits 3 cs
  let cs ← readChar 'Z' cs
  guard cs.isEmpty
  return (daysFromCivil ⟨year, month, day⟩ * 86400 + (hour * 3600 + minute * 60 + second : Nat)) *
    1000 + milli

theorem year_bound {days : Int} (h : days.natAbs ≤ 100000001) :
    (civilFromDays days).year.natAbs < 10 ^ 6 := by
  have hlt : ((days + 719468) % 146097).toNat < 146097 := by omega
  obtain ⟨-, hyear, -⟩ := yearAndDay_spec hlt
  have hera : ((days + 719468) / 146097).natAbs ≤ 690 := by omega
  have hbound : ∀ (year : Nat) (era january : Int), year ≤ 399 → era.natAbs ≤ 690 →
      january = 1 ∨ january = 0 → (year + era * 400 + january).natAbs < 10 ^ 6 := by omega
  exact hbound _ _ _ hyear hera (ite_eq_or_eq _ _ _)

/-- The reader takes the parts of a text in their order. -/
theorem parseIso_parts {year : Int} {month day hour minute second milli : Nat}
    (hyear : year.natAbs < 10 ^ 6) (hmonth : month < 10 ^ 2) (hday : day < 10 ^ 2)
    (hhour : hour < 10 ^ 2) (hminute : minute < 10 ^ 2) (hsecond : second < 10 ^ 2)
    (hmilli : milli < 10 ^ 3) :
    parseIso (String.ofList (yearText year ++ '-' :: (padded 2 month ++ '-' :: (padded 2 day ++
      'T' :: (padded 2 hour ++ ':' :: (padded 2 minute ++ ':' :: (padded 2 second ++
        '.' :: (padded 3 milli ++ ['Z'])))))))) =
      some ((daysFromCivil ⟨year, month, day⟩ * 86400 +
        (hour * 3600 + minute * 60 + second : Nat)) * 1000 + milli) := by
  unfold parseIso
  rw [String.toList_ofList]
  -- the parts in the order of the format, each with the separator behind it
  refine Option.bind_eq_some_iff.2 ⟨_, readYear_yearText hyear _, ?_⟩
  refine Option.bind_eq_some_iff.2 ⟨_, readChar_cons _ _, ?_⟩
  refine Option.bind_eq_some_iff.2 ⟨_, readDigits_padded (by decide) hmonth _, ?_⟩
  refine Option.bind_eq_some_iff.2 ⟨_, readChar_cons _ _, ?_⟩
  refine Option.bind_eq_some_iff.2 ⟨_, readDigits_padded (by decide) hday _, ?_⟩
  refine Option.bind_eq_some_iff.2 ⟨_, readChar_cons _ _, ?_⟩
  refine Option.bind_eq_some_iff.2 ⟨_, readDigits_padded (by decide) hhour _, ?_⟩
  refine Option.bind_eq_some_iff.2 ⟨_, readChar_cons _ _, ?_⟩
  refine Option.bind_eq_some_iff.2 ⟨_, readDigits_padded (by decide) hminute _, ?_⟩
  refine Option.bind_eq_some_iff.2 ⟨_, readChar_cons _ _, ?_⟩
  refine Option.bind_eq_some_iff.2 ⟨_, readDigits_padded (by decide) hsecond _, ?_⟩
  refine Option.bind_eq_some_iff.2 ⟨_, readChar_cons _ _, ?_⟩
  refine Option.bind_eq_some_iff.2 ⟨_, readDigits_padded (by decide) hmilli _, ?_⟩
  refine Option.bind_eq_some_iff.2 ⟨_, readChar_cons _ _, ?_⟩
  rfl

theorem parseIso_toISOString {ms : Int} (h : ms.natAbs ≤ maxTime) :
    parseIso (toISOString ms) = some ms := by
  unfold maxTime at h
  obtain ⟨hmonth, hday⟩ := civilFromDays_bounds (ms / 1000 / 86400)
  have hyear : (civilFromDays (ms / 1000 / 86400)).year.natAbs < 10 ^ 6 := year_bound (by omega)
  have htime : (ms / 1000 % 86400).toNat < 86400 := by omega
  rw [toISOString, dateTimeText]
  simp only [List.append_assoc, List.cons_append]
  rw [parseIso_parts hyear (by omega) (by omega) (by omega) (by omega) (by omega) (by omega)]
  have hdays := daysFromCivil_civilFromDays (ms / 1000 / 86400)
  show some ((daysFromCivil (civilFromDays (ms / 1000 / 86400)) * 86400 + _) * 1000 + _) = some ms
  rw [hdays]
  congr 1
  omega

/-- A `Date.parse` that reads that form only. -/
def isoDates : Dates := ⟨parseIso, fun _ h => parseIso_toISOString h⟩

/-! ### Timestamps of a hub -/

/-- The text a hub writes for a time in microseconds. -/
def microsecondText (us : Int) : String :=
  String.ofList (dateTimeText (us / 1000000) ++
    '.' :: (padded 6 (us % 1000000).toNat ++ ['Z']))

/-- The last digit of a padded number. -/
theorem padded_succ {width : Nat} (hwidth : 0 < width) (n : Nat) :
    padded (width + 1) n = padded width (n / 10) ++ [(n % 10).digitChar] := by
  rcases Nat.lt_or_ge n 10 with hn | hn
  · have hdigits : Nat.toDigits 10 n = [n.digitChar] := Nat.toDigits_of_lt_base hn
    have hzeros : padded width 0 = List.replicate width '0' := by
      obtain ⟨k, rfl⟩ := Nat.exists_eq_succ_of_ne_zero hwidth.ne'
      rw [padded, Nat.toDigits_zero, List.length_singleton, Nat.succ_sub_one,
        List.replicate_succ']
    rw [Nat.div_eq_of_lt hn, Nat.mod_eq_of_lt hn, hzeros, padded, hdigits]
    rfl
  · have hmod : n % 10 < 10 := Nat.mod_lt n (by decide)
    have hsplit : 10 * (n / 10) + n % 10 = n := Nat.div_add_mod n 10
    have hdigits := Nat.toDigits_append_toDigits (by decide : 1 < 10)
      (Nat.div_pos hn (by decide)) hmod
    rw [hsplit, Nat.toDigits_of_lt_base hmod] at hdigits
    rw [padded, padded, ← hdigits, List.length_append, List.length_singleton,
      Nat.add_sub_add_right, List.append_assoc]

/-- Six digits are three and three. -/
theorem padded_six (n : Nat) :
    padded 6 n = padded 3 (n / 1000) ++
      [(n / 100 % 10).digitChar, (n / 10 % 10).digitChar, (n % 10).digitChar] := by
  rw [padded_succ (by decide), padded_succ (by decide), padded_succ (by decide)]
  simp only [List.append_assoc, List.cons_append, List.nil_append, Nat.div_div_eq_div_mul,
    Nat.reduceMul]

theorem padded_three {n : Nat} (h : n < 1000) :
    padded 3 n = [(n / 100).digitChar, (n / 10 % 10).digitChar, (n % 10).digitChar] := by
  have hone : padded 1 (n / 100) = [(n / 100).digitChar] := by
    have hlt : n / 100 < 10 := by omega
    rw [padded, Nat.toDigits_of_lt_base hlt]
    rfl
  rw [padded_succ (by decide), padded_succ (by decide), Nat.div_div_eq_div_mul, hone]
  rfl

/-- The first three of six digits are left. -/
theorem millisecondText_digits (front : List Char) {x y z a b c : Char}
    (h : ([a, b, c, x, y, z].all Char.isDigit) = true) :
    millisecondText (String.ofList (front ++ ['.', x, y, z, a, b, c, 'Z'])) =
      String.ofList (front ++ ['.', x, y, z, 'Z']) := by
  unfold millisecondText
  rw [String.toList_ofList, List.reverse_append]
  show (if ([a, b, c, x, y, z].all Char.isDigit) = true then
    String.ofList (front.reverse.reverse ++ ['.', x, y, z, 'Z']) else _) = _
  rw [if_pos h, List.reverse_reverse]

/-- A timestamp of a hub is read as its milliseconds. -/
theorem Dates.parse_microsecondText (dates : Dates) {us : Int}
    (h : (us / 1000).natAbs ≤ maxTime) :
    dates.parseTimestampUtcMs (microsecondText us) = some (us / 1000) := by
  have hmilli : (us % 1000000).toNat / 1000 = (us / 1000 % 1000).toNat := by omega
  have hlt : (us / 1000 % 1000).toNat < 1000 := by omega
  have hseconds : us / 1000000 = us / 1000 / 1000 := by omega
  have htext : millisecondText (microsecondText us) = toISOString (us / 1000) := by
    rw [microsecondText, toISOString, padded_six, hmilli, hseconds, padded_three hlt]
    apply millisecondText_digits
    simp only [List.all_cons, List.all_nil, Nat.isDigit_digitChar, Bool.and_true, Bool.and_eq_true,
      decide_eq_true_eq]
    omega
  rw [parseTimestampUtcMs, htext, dates.parse_toISOString _ h]

/-- What the Worker makes of it is the same time without its microseconds. -/
theorem formatTimestampUtc_eq (ms : Int) : formatTimestampUtc ms = microsecondText (ms * 1000) := by
  have hseconds : ms * 1000 / 1000000 = ms / 1000 := by omega
  have hmicro : (ms * 1000 % 1000000).toNat = (ms % 1000).toNat * 1000 := by omega
  have hdigits : ∀ n : Nat, padded 6 (n * 1000) = padded 3 n ++ ['0', '0', '0'] := by
    intro n
    have h₁ : n * 1000 / 1000 = n := by omega
    have h₂ : n * 1000 / 100 % 10 = 0 := by omega
    have h₃ : n * 1000 / 10 % 10 = 0 := by omega
    have h₄ : n * 1000 % 10 = 0 := by omega
    rw [padded_six, h₁, h₂, h₃, h₄]
    rfl
  rw [formatTimestampUtc, microsecondText, hseconds, hmicro, hdigits, List.append_assoc]
  rfl

end AgentHub.Cloud
