import AgentHub.Cloud.Equiv.Dates
import Mathlib.Data.Int.ConditionallyCompleteOrder

/-!
# Timestamps as texts and as times

Two canonical timestamps of one year are in order as texts when they are in order as times
(`formatTimestampUtc_lt`).  Between years it is the sign in front that decides: a year with four
digits is above any with a sign, a minus above a plus, and among negative years the earlier is the
one above.
-/

namespace AgentHub.Cloud

/-! ### The calendar goes forward -/

/-- The leap day is the last of a year that comes before one to be divided by four. -/
theorem yearAndDay_leap {n : Nat} (h : n < 146097) (hday : (yearAndDay n).2 = 365) :
    (yearAndDay n).1 % 4 = 3 ∧ ((yearAndDay n).1 % 100 = 99 → (yearAndDay n).1 = 399) := by
  revert hday
  unfold yearAndDay
  extract_lets century inCentury quad inQuad year
  intro hday
  have hcentury : century ≤ 3 ∧ inCentury ≤ 36524 ∧ (inCentury = 36524 → century = 3) := by omega
  have hquad : quad ≤ 24 ∧ inQuad ≤ 1460 ∧ (quad = 24 ∧ inQuad = 1460 → inCentury = 36524) := by
    omega
  have hyear : year = 3 ∧ inQuad = 1460 := by
    show year = 3 ∧ inQuad = 1460
    simp only at hday
    omega
  constructor
  · show (100 * century + 4 * quad + year) % 4 = 3
    omega
  · show (100 * century + 4 * quad + year) % 100 = 99 → 100 * century + 4 * quad + year = 399
    omega

/-- The days before a year of four centuries. -/
def daysBeforeYear (year : Nat) : Nat := 365 * year + year / 4 - year / 100

theorem daysBeforeYear_succ (year : Nat) :
    daysBeforeYear (year + 1) = daysBeforeYear year + 365 ∨
      (daysBeforeYear (year + 1) = daysBeforeYear year + 366 ∧ year % 4 = 3) := by
  unfold daysBeforeYear
  have hcenturies : year / 100 ≤ year := Nat.div_le_self _ _
  by_cases hleap : year % 4 = 3
  · have hfours : (year + 1) / 4 = year / 4 + 1 := by omega
    by_cases hcentury : year % 100 = 99
    · have hhundreds : (year + 1) / 100 = year / 100 + 1 := by omega
      omega
    · have hhundreds : (year + 1) / 100 = year / 100 := by omega
      omega
  · have hfours : (year + 1) / 4 = year / 4 := by omega
    have hhundreds : (year + 1) / 100 = year / 100 := by omega
    omega

theorem daysBeforeYear_mono : Monotone daysBeforeYear := by
  refine monotone_nat_of_le_succ fun year => ?_
  rcases daysBeforeYear_succ year with h | ⟨h, -⟩ <;> omega

/-- The next day is in the same year, or it is the first of the next one. -/
theorem yearAndDay_succ {n : Nat} (h : n + 1 < 146097) :
    ((yearAndDay (n + 1)).1 = (yearAndDay n).1 ∧ (yearAndDay (n + 1)).2 = (yearAndDay n).2 + 1) ∨
      ((yearAndDay (n + 1)).1 = (yearAndDay n).1 + 1 ∧ (yearAndDay (n + 1)).2 = 0 ∧
        364 ≤ (yearAndDay n).2) := by
  obtain ⟨hday, hyear, hn⟩ := yearAndDay_spec (Nat.lt_of_succ_lt h)
  obtain ⟨hday', hyear', hn'⟩ := yearAndDay_spec h
  have hleap := yearAndDay_leap (Nat.lt_of_succ_lt h)
  have hleap' := yearAndDay_leap h
  generalize (yearAndDay n).1 = year at *
  generalize (yearAndDay n).2 = day at *
  generalize (yearAndDay (n + 1)).1 = year' at *
  generalize (yearAndDay (n + 1)).2 = day' at *
  change daysBeforeYear year + day = n at hn
  change daysBeforeYear year' + day' = n + 1 at hn'
  -- a year has no more days than come before the next
  have hfull : ∀ {y d : Nat}, y ≤ 399 → d ≤ 365 → (d = 365 → y % 4 = 3 ∧ (y % 100 = 99 → y = 399)) →
      daysBeforeYear y + d < daysBeforeYear (y + 1) ∨ y = 399 := by
    intro y d _ _ hd
    unfold daysBeforeYear
    omega
  rcases Nat.lt_trichotomy year' year with hlt | rfl | hgt
  · have hmono : daysBeforeYear (year' + 1) ≤ daysBeforeYear year := daysBeforeYear_mono hlt
    have := hfull hyear' hday' hleap'
    omega
  · left
    omega
  · right
    have hmono : daysBeforeYear (year + 1) ≤ daysBeforeYear year' := daysBeforeYear_mono hgt
    have := hfull hyear hday hleap
    have hnext : ¬ year + 1 < year' := by
      intro hlt
      have hmono' : daysBeforeYear (year + 1 + 1) ≤ daysBeforeYear year' := daysBeforeYear_mono hlt
      have := daysBeforeYear_succ (year + 1)
      omega
    have := daysBeforeYear_succ year
    have hyears : year' = year + 1 := by omega
    subst hyears
    omega

/-- The next day is in the same month, or it is the first of the next one. -/
theorem monthAndDay_succ {n : Nat} (h : n + 1 ≤ 365) :
    ((monthAndDay (n + 1)).1 = (monthAndDay n).1 ∧
        (monthAndDay (n + 1)).2 = (monthAndDay n).2 + 1) ∨
      ((monthAndDay (n + 1)).1 = (monthAndDay n).1 + 1 ∧ (monthAndDay n).1 ≠ 2) ∨
      ((monthAndDay (n + 1)).1 = 1 ∧ (monthAndDay n).1 = 12) := by
  unfold monthAndDay
  simp only
  by_cases hm : (5 * (n + 1) + 2) / 153 = (5 * n + 2) / 153
  · rw [hm]
    omega
  · have hnext : (5 * (n + 1) + 2) / 153 = (5 * n + 2) / 153 + 1 := by omega
    rw [hnext]
    split_ifs <;> omega

/-- A date as one number, which is in the order of its parts. -/
def dateNumber (date : CivilDate) : Int := (date.year * 16 + date.month) * 32 + date.day

/-- The date of a day of a year that begins in March. -/
def marchDate (year : Int) (n : Nat) : CivilDate where
  year := year + (if (monthAndDay n).1 ≤ 2 then 1 else 0)
  month := (monthAndDay n).1
  day := (monthAndDay n).2

theorem dateNumber_marchDate_succ (year : Int) {n : Nat} (h : n + 1 ≤ 365) :
    dateNumber (marchDate year n) < dateNumber (marchDate year (n + 1)) := by
  obtain ⟨hmonth, hday, -⟩ := monthAndDay_spec (Nat.le_of_succ_le h)
  unfold dateNumber marchDate
  simp only
  rcases monthAndDay_succ h with ⟨hsame, hnext⟩ | ⟨hnext, htwo⟩ | ⟨hone, htwelve⟩
  · rw [hsame, hnext]
    omega
  · rw [hnext]
    split_ifs <;> omega
  · rw [hone, htwelve]
    split_ifs <;> omega

theorem dateNumber_marchDate_next (year : Int) {n : Nat} (h : n ≤ 365) (hlast : 364 ≤ n) :
    dateNumber (marchDate year n) < dateNumber (marchDate (year + 1) 0) := by
  obtain ⟨hmonth, hday, -⟩ := monthAndDay_spec h
  have hfebruary : (monthAndDay n).1 = 2 := by
    unfold monthAndDay
    simp only
    split_ifs <;> omega
  have hmarch : monthAndDay 0 = (3, 1) := by decide
  unfold dateNumber marchDate
  rw [hfebruary, hmarch]
  simp only
  split_ifs <;> omega

theorem dateNumber_succ (days : Int) :
    dateNumber (civilFromDays days) < dateNumber (civilFromDays (days + 1)) := by
  have hmarch : ∀ day : Int, civilFromDays day =
      marchDate ((yearAndDay ((day + 719468) % 146097).toNat).1 + (day + 719468) / 146097 * 400)
        (yearAndDay ((day + 719468) % 146097).toNat).2 := fun _ => rfl
  have hlt : ((days + 719468) % 146097).toNat < 146097 := by omega
  obtain ⟨hday, -, -⟩ := yearAndDay_spec hlt
  simp only [hmarch]
  by_cases hlast : (days + 719468) % 146097 = 146096
  · -- the last day of four centuries
    have hera : (days + 1 + 719468) / 146097 = (days + 719468) / 146097 + 1 := by omega
    have hzero : (days + 1 + 719468) % 146097 = 0 := by omega
    have hend : yearAndDay (146096 : Int).toNat = (399, 365) := by decide
    have hstart : yearAndDay (0 : Int).toNat = (0, 0) := by decide
    have hnext := dateNumber_marchDate_next (399 + (days + 719468) / 146097 * 400) (le_refl 365)
      (by decide)
    have hyear : ((0 : Nat) : Int) + ((days + 719468) / 146097 + 1) * 400 =
        399 + (days + 719468) / 146097 * 400 + 1 := by omega
    rw [hlast, hzero, hera, hend, hstart, hyear]
    exact hnext
  · -- within the same four centuries: the next day, or the first of March
    have hera : (days + 1 + 719468) / 146097 = (days + 719468) / 146097 := by omega
    have hnext : ((days + 1 + 719468) % 146097).toNat = ((days + 719468) % 146097).toNat + 1 := by
      omega
    rw [hera, hnext]
    rcases yearAndDay_succ (by omega : ((days + 719468) % 146097).toNat + 1 < 146097) with
      ⟨hyear, hsucc⟩ | ⟨hyear, hfirst, hfull⟩
    · have hwithin := (yearAndDay_spec (by omega :
        ((days + 719468) % 146097).toNat + 1 < 146097)).1
      rw [hsucc] at hwithin
      rw [hyear, hsucc]
      exact dateNumber_marchDate_succ _ hwithin
    · -- the day was the last of its year
      have hnextYear : (((yearAndDay ((days + 719468) % 146097).toNat).1 + 1 : Nat) : Int) +
          (days + 719468) / 146097 * 400 = (yearAndDay ((days + 719468) % 146097).toNat).1 +
            (days + 719468) / 146097 * 400 + 1 := by omega
      rw [hyear, hfirst, hnextYear]
      exact dateNumber_marchDate_next _ hday hfull

/-- A later day has a later date. -/
theorem dateNumber_lt {days days' : Int} (h : days < days') :
    dateNumber (civilFromDays days) < dateNumber (civilFromDays days') :=
  strictMono_int_of_lt_succ dateNumber_succ h

/-! ### Numbers of a fixed width -/

/-- Texts with fronts of one length are compared by the fronts first. -/
theorem append_lt_append {front front' : List Char} (hlength : front.length = front'.length)
    (rest rest' : List Char) :
    front ++ rest < front' ++ rest' ↔ front < front' ∨ (front = front' ∧ rest < rest') := by
  induction front generalizing front' with
  | nil =>
    obtain rfl := List.eq_nil_of_length_eq_zero hlength.symm
    simp
  | cons c cs ih =>
    cases front' with
    | nil => cases hlength
    | cons d ds =>
      rw [List.cons_append, List.cons_append, List.cons_lt_cons_iff, List.cons_lt_cons_iff,
        ih (Nat.succ.inj hlength), List.cons.injEq]
      tauto

theorem digitChar_lt {m n : Nat} (hm : m < 10) (hn : n < 10) :
    m.digitChar < n.digitChar ↔ m < n := by
  have hdigits : ∀ d : Nat, d < 10 → d.digitChar.toNat = 48 + d := by decide
  show m.digitChar.toNat < n.digitChar.toNat ↔ m < n
  rw [hdigits m hm, hdigits n hn]
  exact Nat.add_lt_add_iff_left

theorem padded_one {n : Nat} (h : n < 10) : padded 1 n = [n.digitChar] := by
  rw [padded, Nat.toDigits_of_lt_base h]
  rfl

theorem padded_injective {width : Nat} (hwidth : 0 < width) {m n : Nat} (hm : m < 10 ^ width)
    (hn : n < 10 ^ width) (h : padded width m = padded width n) : m = n := by
  have hread := readDigits_padded hwidth hm []
  rw [h, readDigits_padded hwidth hn] at hread
  exact (Prod.mk.inj (Option.some.inj hread)).1.symm

/-- Padded numbers are in their order as texts. -/
theorem padded_lt {width : Nat} (hwidth : 0 < width) {m n : Nat} (hm : m < 10 ^ width)
    (hn : n < 10 ^ width) : padded width m < padded width n ↔ m < n := by
  induction width, hwidth using Nat.le_induction generalizing m n with
  | base =>
    rw [padded_one (by omega), padded_one (by omega), List.cons_lt_cons_iff,
      digitChar_lt (by omega) (by omega)]
    simp
  | succ width hpos ih =>
    have hm' : m / 10 < 10 ^ width := by omega
    have hn' : n / 10 < 10 ^ width := by omega
    have hlength : (padded width (m / 10)).length = (padded width (n / 10)).length := by
      rw [length_padded hpos hm', length_padded hpos hn']
    have hsame : padded width (m / 10) = padded width (n / 10) ↔ m / 10 = n / 10 :=
      ⟨padded_injective hpos hm' hn', fun h => h ▸ rfl⟩
    rw [padded_succ hpos, padded_succ hpos, append_lt_append hlength, ih hm' hn', hsame,
      List.cons_lt_cons_iff, digitChar_lt (Nat.mod_lt _ (by decide)) (Nat.mod_lt _ (by decide))]
    simp only [List.lt_irrefl, and_false, or_false]
    omega

/-! ### Years -/

/-- The year of a time in milliseconds. -/
def yearOf (ms : Int) : Int := (civilFromDays (ms / 1000 / 86400)).year

/-- What follows the year in a canonical timestamp. -/
def afterYear (ms : Int) : List Char :=
  let date := civilFromDays (ms / 1000 / 86400)
  let rest := (ms / 1000 % 86400).toNat
  '-' :: (padded 2 date.month ++ '-' :: (padded 2 date.day ++
    'T' :: (padded 2 (rest / 3600) ++ ':' :: (padded 2 (rest / 60 % 60) ++
      ':' :: (padded 2 (rest % 60) ++ '.' :: (padded 3 (ms % 1000).toNat ++
        ['0', '0', '0', 'Z']))))))

theorem formatTimestampUtc_parts (ms : Int) :
    formatTimestampUtc ms = String.ofList (yearText (yearOf ms) ++ afterYear ms) := by
  simp only [formatTimestampUtc, dateTimeText, yearOf, afterYear, List.append_assoc,
    List.cons_append]

theorem yearOf_mono {ms ms' : Int} (h : ms ≤ ms') : yearOf ms ≤ yearOf ms' := by
  have hdays : ms / 1000 / 86400 ≤ ms' / 1000 / 86400 := by omega
  have hnumber : dateNumber (civilFromDays (ms / 1000 / 86400)) ≤
      dateNumber (civilFromDays (ms' / 1000 / 86400)) := by
    rcases hdays.eq_or_lt with hsame | hlater
    · rw [hsame]
    · exact (dateNumber_lt hlater).le
  obtain ⟨hmonth, hday⟩ := civilFromDays_bounds (ms / 1000 / 86400)
  obtain ⟨hmonth', hday'⟩ := civilFromDays_bounds (ms' / 1000 / 86400)
  unfold dateNumber at hnumber
  show (civilFromDays _).year ≤ (civilFromDays _).year
  omega

/-- Two numbers of one width with something after them. -/
theorem padded_append_lt {width : Nat} (hwidth : 0 < width) {m n : Nat} (hm : m < 10 ^ width)
    (hn : n < 10 ^ width) (c : Char) (rest rest' : List Char) :
    padded width m ++ c :: rest < padded width n ++ c :: rest' ↔
      m < n ∨ (m = n ∧ rest < rest') := by
  have hlength : (padded width m).length = (padded width n).length := by
    rw [length_padded hwidth hm, length_padded hwidth hn]
  have hsame : padded width m = padded width n ↔ m = n :=
    ⟨padded_injective hwidth hm hn, fun h => h ▸ rfl⟩
  rw [append_lt_append hlength, padded_lt hwidth hm hn, hsame, List.cons_lt_cons_iff]
  simp

/-- A later time of a day is later by the clock. -/
theorem clock_lt {r r' : Nat} (h : r < r') :
    r / 3600 < r' / 3600 ∨ (r / 3600 = r' / 3600 ∧
      (r / 60 % 60 < r' / 60 % 60 ∨ (r / 60 % 60 = r' / 60 % 60 ∧ r % 60 < r' % 60))) := by
  have hhour : r / 60 / 60 = r / 3600 := Nat.div_div_eq_div_mul _ _ _
  have hhour' : r' / 60 / 60 = r' / 3600 := Nat.div_div_eq_div_mul _ _ _
  rw [← hhour, ← hhour']
  have hminute : r / 60 ≤ r' / 60 := Nat.div_le_div_right h.le
  generalize hm : r / 60 = m at *
  generalize hm' : r' / 60 = m' at *
  omega

/-- In one year the later time has the greater text. -/
theorem afterYear_lt {ms ms' : Int} (hyear : yearOf ms = yearOf ms') (h : ms < ms') :
    afterYear ms < afterYear ms' := by
  obtain ⟨hmonth, hday⟩ := civilFromDays_bounds (ms / 1000 / 86400)
  obtain ⟨hmonth', hday'⟩ := civilFromDays_bounds (ms' / 1000 / 86400)
  unfold afterYear
  simp only
  -- field by field, from the month to the milliseconds
  rw [List.cons_lt_cons_iff, padded_append_lt (by decide) (by omega) (by omega),
    padded_append_lt (by decide) (by omega) (by omega),
    padded_append_lt (by decide) (by omega) (by omega),
    padded_append_lt (by decide) (by omega) (by omega),
    padded_append_lt (by decide) (by omega) (by omega),
    append_lt_append (by rw [length_padded (by decide) (by omega),
      length_padded (by decide) (by omega)]),
    padded_lt (by decide) (by omega) (by omega)]
  refine .inr ⟨rfl, ?_⟩
  rcases lt_or_eq_of_le (by omega : ms / 1000 / 86400 ≤ ms' / 1000 / 86400) with hlater | hsame
  · -- another day of the year
    have hnumber := dateNumber_lt hlater
    change (civilFromDays _).year = (civilFromDays _).year at hyear
    unfold dateNumber at hnumber
    omega
  · rw [hsame]
    refine .inr ⟨rfl, .inr ⟨rfl, ?_⟩⟩
    -- the same day: the clock decides
    rcases lt_or_eq_of_le (by omega : (ms / 1000 % 86400).toNat ≤ (ms' / 1000 % 86400).toNat) with
      hlater | hsecond
    · rcases clock_lt hlater with hhour | ⟨hhour, hminute | ⟨hminute, hsecond⟩⟩
      · exact .inl hhour
      · exact .inr ⟨hhour, .inl hminute⟩
      · exact .inr ⟨hhour, .inr ⟨hminute, .inl hsecond⟩⟩
    · -- the same second: the milliseconds decide
      rw [hsecond]
      have hmilli : (ms % 1000).toNat < (ms' % 1000).toNat := by omega
      exact .inr ⟨rfl, .inr ⟨rfl, .inr ⟨rfl, .inl hmilli⟩⟩⟩

/-- Where a year stands among the others as a text. -/
def yearKey (year : Int) : Int :=
  if 0 ≤ year ∧ year ≤ 9999 then 2000000 + year
  else if year < 0 then 1000000 - year
  else year

theorem yearKey_injective {year year' : Int} (h : year.natAbs < 10 ^ 6)
    (h' : year'.natAbs < 10 ^ 6) (hkey : yearKey year = yearKey year') : year = year' := by
  unfold yearKey at hkey
  split_ifs at hkey <;> omega

/-- Four digits are above a sign. -/
theorem sign_lt_padded {year : Nat} (h : year < 10 ^ 4) {sign : Char}
    (hsign : ∀ d < 10, sign < d.digitChar) (front rest : List Char) :
    sign :: front < padded 4 year ++ rest := by
  have hthree : padded 3 (year / 10) = [(year / 10 / 100).digitChar,
      (year / 10 / 10 % 10).digitChar, (year / 10 % 10).digitChar] := padded_three (by omega)
  rw [padded_succ (by decide), hthree]
  exact List.cons_lt_cons_iff.2 (.inl (hsign _ (by omega)))

/-- The digits after a sign. -/
theorem sign_append_lt (sign : Char) {m n : Nat} (hm : m < 10 ^ 6) (hn : n < 10 ^ 6)
    (rest rest' : List Char) :
    sign :: padded 6 m ++ '-' :: rest < sign :: padded 6 n ++ '-' :: rest' ↔
      m < n ∨ (m = n ∧ rest < rest') := by
  rw [List.cons_append, List.cons_append, List.cons_lt_cons_iff,
    padded_append_lt (by decide) hm hn]
  simp

theorem yearText_lt {year year' : Int} (h : year.natAbs < 10 ^ 6) (h' : year'.natAbs < 10 ^ 6)
    (rest rest' : List Char) :
    yearText year ++ '-' :: rest < yearText year' ++ '-' :: rest' ↔
      yearKey year < yearKey year' ∨ (year = year' ∧ rest < rest') := by
  have hminus : ∀ d < 10, '-' < d.digitChar := by decide
  have hplus : ∀ d < 10, '+' < d.digitChar := by decide
  -- which of two texts is above, where their first characters differ
  have above : ∀ {text text' : List Char}, text < text' → yearKey year < yearKey year' →
      (text < text' ↔ yearKey year < yearKey year' ∨ (year = year' ∧ rest < rest')) :=
    fun htext hkey => iff_of_true htext (.inl hkey)
  have below : ∀ {text text' : List Char}, text' < text → yearKey year' < yearKey year →
      (text < text' ↔ yearKey year < yearKey year' ∨ (year = year' ∧ rest < rest')) := by
    intro text text' htext hkey
    refine iff_of_false (List.lt_asymm htext) ?_
    rintro (hlt | ⟨rfl, -⟩)
    · omega
    · omega
  unfold yearKey at above below ⊢
  unfold yearText
  split_ifs at above below ⊢ with hfour hfour' hneg' hneg hfour' hneg' hfour' hneg'
  · rw [padded_append_lt (by decide) (by omega) (by omega)]
    exact or_congr (by omega) (and_congr_left' (by omega))
  · exact below (sign_lt_padded (by omega) hminus _ _) (by omega)
  · exact below (sign_lt_padded (by omega) hplus _ _) (by omega)
  · exact above (sign_lt_padded (by omega) hminus _ _) (by omega)
  · rw [sign_append_lt '-' h h']
    exact or_congr (by omega) (and_congr_left' (by omega))
  · exact below (List.cons_lt_cons_iff.2 (.inl (by decide))) (by omega)
  · exact above (sign_lt_padded (by omega) hplus _ _) (by omega)
  · exact above (List.cons_lt_cons_iff.2 (.inl (by decide))) (by omega)
  · rw [sign_append_lt '+' h h']
    exact or_congr (by omega) (and_congr_left' (by omega))

/-! ### Timestamps -/

theorem yearOf_bound {ms : Int} (h : ms.natAbs ≤ maxTime) : (yearOf ms).natAbs < 10 ^ 6 := by
  unfold maxTime at h
  exact year_bound (by omega)

/-- Timestamps are compared by their years as texts, and within a year by the time. -/
theorem formatTimestampUtc_lt {ms ms' : Int} (h : ms.natAbs ≤ maxTime) (h' : ms'.natAbs ≤ maxTime) :
    formatTimestampUtc ms < formatTimestampUtc ms' ↔
      yearKey (yearOf ms) < yearKey (yearOf ms') ∨ (yearOf ms = yearOf ms' ∧ ms < ms') := by
  have hafter : ∀ t : Int, afterYear t = '-' :: (afterYear t).tail := fun _ => rfl
  have hcompare := yearText_lt (yearOf_bound h) (yearOf_bound h') (afterYear ms).tail
    (afterYear ms').tail
  rw [← hafter, ← hafter] at hcompare
  rw [formatTimestampUtc_parts, formatTimestampUtc_parts, String.lt_iff, String.toList_ofList,
    String.toList_ofList, hcompare]
  refine or_congr_right (and_congr_right fun hyear => ?_)
  have htail : ∀ t u : Int, (afterYear t).tail < (afterYear u).tail ↔ afterYear t < afterYear u := by
    intro t u
    rw [hafter t, hafter u, List.cons_lt_cons_iff]
    simp
  rw [htail]
  constructor
  · intro hlt
    by_contra hge
    rcases lt_or_eq_of_le (Int.not_lt.1 hge) with hlater | rfl
    · exact List.lt_asymm hlt (afterYear_lt hyear.symm hlater)
    · exact List.lt_irrefl _ hlt
  · exact afterYear_lt hyear

theorem formatTimestampUtc_injective {ms ms' : Int} (h : ms.natAbs ≤ maxTime)
    (h' : ms'.natAbs ≤ maxTime) (heq : formatTimestampUtc ms = formatTimestampUtc ms') :
    ms = ms' := by
  have hless : ¬ formatTimestampUtc ms < formatTimestampUtc ms' := heq ▸ List.lt_irrefl _
  have hgreater : ¬ formatTimestampUtc ms' < formatTimestampUtc ms := heq ▸ List.lt_irrefl _
  rw [formatTimestampUtc_lt h h'] at hless
  rw [formatTimestampUtc_lt h' h] at hgreater
  have hyear : yearOf ms = yearOf ms' :=
    yearKey_injective (yearOf_bound h) (yearOf_bound h') (by omega)
  omega

/-- Of these times the greatest text is the latest.  Either all of them are past the years with four
digits, or none is, and then one of them has such a year or all are of one. -/
def SortsAsText (times : List Int) : Prop :=
  (∀ t ∈ times, 9999 < yearOf t) ∨
    ((∀ t ∈ times, yearOf t ≤ 9999) ∧
      ((∃ t ∈ times, 0 ≤ yearOf t) ∨ ∀ t ∈ times, ∀ u ∈ times, yearOf t = yearOf u))

instance (times : List Int) : Decidable (SortsAsText times) := by
  unfold SortsAsText
  infer_instance

/-- The time with the greatest text is the latest one under exactly that condition. -/
theorem latest_iff {times : List Int} (hbound : ∀ t ∈ times, t.natAbs ≤ maxTime) {last : Int}
    (hmem : last ∈ times)
    (hgreatest : ∀ t ∈ times, ¬ formatTimestampUtc last < formatTimestampUtc t) :
    (∀ t ∈ times, t ≤ last) ↔ SortsAsText times := by
  have hkey : ∀ t ∈ times, yearKey (yearOf t) ≤ yearKey (yearOf last) ∧
      (yearOf last = yearOf t → t ≤ last) := by
    intro t ht
    have hnot := hgreatest t ht
    rw [formatTimestampUtc_lt (hbound last hmem) (hbound t ht)] at hnot
    exact ⟨by omega, fun hyear => by omega⟩
  have hyears : ∀ t ∈ times, (yearOf t).natAbs < 10 ^ 6 := fun t ht => yearOf_bound (hbound t ht)
  constructor
  · intro hlatest
    by_cases hplus : ∀ t ∈ times, 9999 < yearOf t
    · exact .inl hplus
    push Not at hplus
    obtain ⟨other, hother, hfour⟩ := hplus
    -- a year with a plus is below that of the other time
    have hlast : yearOf last ≤ 9999 := by
      have := (hkey other hother).1
      have := hyears last hmem
      have := hyears other hother
      unfold yearKey at *
      split_ifs at * <;> omega
    have hupTo : ∀ t ∈ times, yearOf t ≤ 9999 := fun t ht =>
      (yearOf_mono (hlatest t ht)).trans hlast
    refine .inr ⟨hupTo, ?_⟩
    by_cases hpositive : ∃ t ∈ times, 0 ≤ yearOf t
    · exact .inl hpositive
    push Not at hpositive
    -- among negative years the last in time is the first as a text
    have hone : ∀ t ∈ times, yearOf t = yearOf last := by
      intro t ht
      have hle := yearOf_mono (hlatest t ht)
      have := (hkey t ht).1
      have := hpositive t ht
      have := hpositive last hmem
      unfold yearKey at *
      split_ifs at * <;> omega
    exact .inr fun t ht u hu => (hone t ht).trans (hone u hu).symm
  · intro hsorts t ht
    by_contra hlater
    have hyear : yearOf last ≤ yearOf t := yearOf_mono (by omega)
    have hkeyLe := (hkey t ht).1
    have hsame : yearOf last ≠ yearOf t := fun h => hlater ((hkey t ht).2 h)
    have hlast := hyears last hmem
    have htime := hyears t ht
    rcases hsorts with hplus | ⟨hupTo, ⟨four, hmem', hfour⟩ | hone⟩
    · have := hplus t ht
      have := hplus last hmem
      unfold yearKey at hkeyLe
      split_ifs at hkeyLe <;> omega
    · have := hupTo t ht
      have := hupTo last hmem
      have := hupTo four hmem'
      have hkeyFour := (hkey four hmem').1
      unfold yearKey at hkeyLe hkeyFour
      split_ifs at hkeyLe hkeyFour <;> omega
    · exact hsame (hone last hmem t ht)

end AgentHub.Cloud
