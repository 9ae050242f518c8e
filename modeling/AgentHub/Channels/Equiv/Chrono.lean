import AgentHub.Channels.Chrono
import AgentHub.Cloud.Equiv.Chronology

/-!
# What a lifetime added to the time is

The two ranges come to one bound, that of the calendar (`addLifetime_eq`), and `compute_expiry` is
this addition (`computeExpiry_eq`).  A reader of the dates the hub prints is `parseStamp`
(`readsDates_parseStamp`).
-/

namespace AgentHub.Channels

open AgentHub.Cloud

/-! ### The addition -/

/-- **A lifetime can be added** exactly where the sum is within the calendar. -/
theorem addLifetime_eq (now ttl : Nat) :
    addLifetime now ttl =
      if now + ttl * nanosPerSecond < calendarEnd * nanosPerSecond then
        some (now + ttl * nanosPerSecond)
      else none := by
  have hcalendar : calendarEnd ≤ i64Max / 1000 := by decide
  have hlimit : i64Max / 1000 < i64Max := by decide
  have hnanos : 0 < nanosPerSecond := by decide
  unfold addLifetime lifetimeSeconds timeDelta
  generalize i64Max / 1000 = longest at *
  by_cases hshort : ttl ≤ longest
  · rw [Nat.min_eq_left (by omega), if_pos hshort, Option.bind_some, addDelta]
  · -- such a lifetime is longer than the calendar too
    have hlong : calendarEnd * nanosPerSecond ≤ ttl * nanosPerSecond :=
      Nat.mul_le_mul_right _ (by omega)
    rw [if_neg (by omega), if_neg (by omega), Option.bind_none]

theorem addLifetime_eq_some {now ttl t : Nat} (h : addLifetime now ttl = some t) :
    t = now + ttl * nanosPerSecond ∧ t < calendarEnd * nanosPerSecond := by
  rw [addLifetime_eq] at h
  split at h
  · next hlt =>
    obtain rfl := Option.some.inj h
    exact ⟨rfl, hlt⟩
  · cases h

/-- `compute_expiry` step by step. -/
theorem computeExpiry_eq (now : Nat) (ttlSeconds : UInt64) :
    computeExpiry now ttlSeconds =
      match addLifetime now (max ttlSeconds.toNat 1) with
      | some t => .ok (formatTimestamp t)
      | none => .error .panicked := by
  rw [addLifetime_eq]
  unfold computeExpiry
  dsimp only
  split <;> rfl

/-! ### The year of a date -/

theorem year_of_date (t : Nat) :
    (civilFromDays (t / nanosPerSecond / 86400 : Nat)).year =
      yearOf (t / nanosPerSecond * 1000 : Nat) := by
  unfold yearOf
  congr 2
  omega

/-- The years below 10000 end where they should. -/
theorem year_le_iff (t : Nat) :
    (civilFromDays (t / nanosPerSecond / 86400 : Nat)).year ≤ 9999 ↔
      t < yearTenThousand * nanosPerSecond := by
  have hlast : yearOf 253402300799000 = 9999 := by decide
  have hnext : yearOf 253402300800000 = 10000 := by decide
  rw [year_of_date]
  constructor
  · intro hyear
    by_contra hge
    have hlate : (253402300800000 : Int) ≤ (t / nanosPerSecond * 1000 : Nat) := by
      unfold yearTenThousand nanosPerSecond at *
      omega
    have hmono := yearOf_mono hlate
    omega
  · intro hlt
    have hearly : ((t / nanosPerSecond * 1000 : Nat) : Int) ≤ 253402300799000 := by
      unfold yearTenThousand nanosPerSecond at *
      omega
    have hmono := yearOf_mono hearly
    omega

theorem year_nonneg (t : Nat) : 0 ≤ (civilFromDays (t / nanosPerSecond / 86400 : Nat)).year := by
  have hfirst : yearOf 0 = 1970 := by decide
  rw [year_of_date]
  have hlate : (0 : Int) ≤ (t / nanosPerSecond * 1000 : Nat) := by omega
  have hmono := yearOf_mono hlate
  omega

/-! ### A reader -/

/-- The nanoseconds of a fraction, which need not be there. -/
def readFraction : List Char → Option (Nat × List Char)
  | '.' :: cs =>
    let digits := cs.takeWhile Char.isDigit
    if digits = [] ∨ 9 < digits.length then none
    else some (Nat.ofDigitChars 10 digits 0 * 10 ^ (9 - digits.length), cs.dropWhile Char.isDigit)
  | cs => some (0, cs)

/-- The offsets the hub writes. -/
def utcOffsets : List (List Char) := [['Z'], ['+', '0', '0', ':', '0', '0']]

/-- A reader of RFC 3339 dates in UTC. -/
def parseStamp (text : String) : Option Int := do
  let (year, cs) ← readDigits 4 text.toList
  let cs ← readChar '-' cs
  let (month, cs) ← readDigits 2 cs
  let cs ← readChar '-' cs
  let (day, cs) ← readDigits 2 cs
  let cs ← readChar 'T' cs
  let (hour, cs) ← readDigits 2 cs
  let cs ← readChar ':' cs
  let (minute, cs) ← readDigits 2 cs
  let cs ← readChar ':' cs
  let (second, cs) ← readDigits 2 cs
  let (nanos, cs) ← readFraction cs
  guard (cs ∈ utcOffsets)
  return (daysFromCivil ⟨year, month, day⟩ * 86400 + (hour * 3600 + minute * 60 + second : Nat)) *
    1000000000 + nanos

theorem all_isDigit_padded (width n : Nat) : ∀ c ∈ padded width n, c.isDigit = true := by
  intro c hc
  rcases List.mem_append.1 hc with hzero | hdigit
  · rw [(List.mem_replicate.1 hzero).2]
    rfl
  · exact Nat.isDigit_of_mem_toDigits (by decide) (by decide) hdigit

theorem ofDigitChars_padded (width n : Nat) : Nat.ofDigitChars 10 (padded width n) 0 = n := by
  rw [padded, Nat.ofDigitChars_append, Nat.ofDigitChars_replicate_zero, Nat.mul_zero,
    Nat.ofDigitChars_ten_toDigits]

/-- A fraction of some digits is read up to the offset. -/
theorem readFraction_padded {width n : Nat} (hwidth : 0 < width) (hnine : width ≤ 9)
    (h : n < 10 ^ width) {offset : List Char} (hoffset : offset ∈ utcOffsets) :
    readFraction ('.' :: (padded width n ++ offset)) = some (n * 10 ^ (9 - width), offset) := by
  have hstop : offset.takeWhile Char.isDigit = [] ∧ offset.dropWhile Char.isDigit = offset := by
    rcases List.mem_pair.1 hoffset with rfl | rfl <;> exact ⟨rfl, rfl⟩
  have htake : (padded width n ++ offset).takeWhile Char.isDigit = padded width n := by
    rw [List.takeWhile_append_of_pos (all_isDigit_padded width n), hstop.1, List.append_nil]
  have hdrop : (padded width n ++ offset).dropWhile Char.isDigit = offset := by
    rw [List.dropWhile_append_of_pos (all_isDigit_padded width n), hstop.2]
  have hlength := length_padded hwidth h
  have hsome : ¬(padded width n = [] ∨ 9 < (padded width n).length) := by
    rintro (hnil | hlong)
    · rw [hnil, List.length_nil] at hlength
      omega
    · omega
  rw [readFraction, htake, hdrop, if_neg hsome, ofDigitChars_padded, hlength]

theorem readFraction_fractionText {nanos : Nat} (h : nanos < 1000000000) {offset : List Char}
    (hoffset : offset ∈ utcOffsets) :
    readFraction (fractionText nanos ++ offset) = some (nanos, offset) := by
  unfold fractionText
  split_ifs with hzero hmillis hmicros
  · rw [hzero, List.nil_append]
    rcases List.mem_pair.1 hoffset with rfl | rfl <;> rfl
  · rw [List.cons_append, readFraction_padded (by decide) (by decide) (by omega) hoffset]
    congr 2
    omega
  · rw [List.cons_append, readFraction_padded (by decide) (by decide) (by omega) hoffset]
    congr 2
    omega
  · rw [List.cons_append, readFraction_padded (by decide) (by decide) (by omega) hoffset]
    congr 2
    omega

/-- The reader takes the parts of a text in their order. -/
theorem parseStamp_parts {year month day hour minute second nanos : Nat}
    (hyear : year < 10 ^ 4) (hmonth : month < 10 ^ 2) (hday : day < 10 ^ 2)
    (hhour : hour < 10 ^ 2) (hminute : minute < 10 ^ 2) (hsecond : second < 10 ^ 2)
    {rest offset : List Char} (hrest : readFraction rest = some (nanos, offset))
    (hoffset : offset ∈ utcOffsets) :
    parseStamp (String.ofList (padded 4 year ++ '-' :: (padded 2 month ++ '-' :: (padded 2 day ++
      'T' :: (padded 2 hour ++ ':' :: (padded 2 minute ++ ':' :: (padded 2 second ++ rest))))))) =
      some ((daysFromCivil ⟨year, month, day⟩ * 86400 +
        (hour * 3600 + minute * 60 + second : Nat)) * 1000000000 + nanos) := by
  unfold parseStamp
  rw [String.toList_ofList]
  refine Option.bind_eq_some_iff.2 ⟨_, readDigits_padded (by decide) hyear _, ?_⟩
  refine Option.bind_eq_some_iff.2 ⟨_, readChar_cons _ _, ?_⟩
  refine Option.bind_eq_some_iff.2 ⟨_, readDigits_padded (by decide) hmonth _, ?_⟩
  refine Option.bind_eq_some_iff.2 ⟨_, readChar_cons _ _, ?_⟩
  refine Option.bind_eq_some_iff.2 ⟨_, readDigits_padded (by decide) hday _, ?_⟩
  refine Option.bind_eq_some_iff.2 ⟨_, readChar_cons _ _, ?_⟩
  refine Option.bind_eq_some_iff.2 ⟨_, readDigits_padded (by decide) hhour _, ?_⟩
  refine Option.bind_eq_some_iff.2 ⟨_, readChar_cons _ _, ?_⟩
  refine Option.bind_eq_some_iff.2 ⟨_, readDigits_padded (by decide) hminute _, ?_⟩
  refine Option.bind_eq_some_iff.2 ⟨_, readChar_cons _ _, ?_⟩
  refine Option.bind_eq_some_iff.2 ⟨_, readDigits_padded (by decide) hsecond _, ?_⟩
  refine Option.bind_eq_some_iff.2 ⟨_, hrest, ?_⟩
  dsimp only
  rw [guard, if_pos hoffset]
  rfl

/-- The text of a time: its second, and what is written of the rest. -/
def stampText (t : Nat) (rest : List Char) : String :=
  let date := civilFromDays (t / nanosPerSecond / 86400 : Nat)
  let second := t / nanosPerSecond % 86400
  String.ofList
    (yearDigits date.year.toNat ++ '-' :: (padded 2 date.month ++ '-' :: (padded 2 date.day ++
      'T' :: (padded 2 (second / 3600) ++ ':' :: (padded 2 (second / 60 % 60) ++ ':' ::
        (padded 2 (second % 60) ++ rest))))))

theorem parseStamp_stampText {t : Nat} (h : t < yearTenThousand * nanosPerSecond)
    {nanos : Nat} {rest offset : List Char} (hrest : readFraction rest = some (nanos, offset))
    (hoffset : offset ∈ utcOffsets) :
    parseStamp (stampText t rest) =
      some ((t / nanosPerSecond * nanosPerSecond + nanos : Nat) : Int) := by
  have hyear := (year_le_iff t).2 h
  have hpositive := year_nonneg t
  obtain ⟨hmonth, hday⟩ := civilFromDays_bounds (t / nanosPerSecond / 86400 : Nat)
  have hdays := daysFromCivil_civilFromDays (t / nanosPerSecond / 86400 : Nat)
  unfold stampText
  generalize t / nanosPerSecond = seconds at *
  generalize civilFromDays (seconds / 86400 : Nat) = date at *
  obtain ⟨year, month, day⟩ := date
  obtain ⟨year, rfl⟩ := Int.eq_ofNat_of_zero_le hpositive
  dsimp only at *
  have hfour : year ≤ 9999 := by omega
  rw [Int.toNat_natCast, yearDigits, if_pos hfour,
    parseStamp_parts (by omega) (by omega) (by omega) (by omega) (by omega) (by omega) hrest hoffset,
    hdays]
  refine congrArg some ?_
  have hnanos : nanosPerSecond = 1000000000 := rfl
  rw [hnanos]
  push_cast
  omega

theorem readDigits_plus (cs : List Char) : readDigits 4 ('+' :: cs) = none := by
  rw [readDigits, if_neg]
  rintro ⟨-, hdigits⟩
  have hplus := List.all_eq_true.1 hdigits '+' (by simp)
  cases hplus

/-- A year with a sign is none of four digits. -/
theorem parseStamp_stampText_far {t : Nat} (h : yearTenThousand * nanosPerSecond ≤ t)
    (rest : List Char) : parseStamp (stampText t rest) = none := by
  have hyear : ¬(civilFromDays (t / nanosPerSecond / 86400 : Nat)).year ≤ 9999 := by
    rw [year_le_iff]
    omega
  have hsign : ¬(civilFromDays (t / nanosPerSecond / 86400 : Nat)).year.toNat ≤ 9999 := by omega
  unfold stampText parseStamp
  dsimp only
  rw [String.toList_ofList, yearDigits, if_neg hsign, List.cons_append, readDigits_plus]
  rfl

theorem formatTimestamp_eq_stampText (t : Nat) :
    formatTimestamp t = stampText t ('.' :: (padded 6 (t / 1000 % 1000000) ++ ['Z'])) := rfl

theorem toRfc3339_eq_stampText (t : Nat) :
    toRfc3339 t = stampText t
      (fractionText (t % nanosPerSecond) ++ ['+', '0', '0', ':', '0', '0']) := rfl

/-- **The dates the hub prints are read back**, up to the year 10000. -/
theorem readsDates_parseStamp : ReadsDates parseStamp where
  micros t h := by
    have hoffset : ['Z'] ∈ utcOffsets := List.mem_cons_self
    have hmicros : t / 1000 % 1000000 < 10 ^ 6 := by omega
    rw [formatTimestamp_eq_stampText, parseStamp_stampText h
      (readFraction_padded (by decide) (by decide) hmicros hoffset) hoffset]
    have hnanos : nanosPerSecond = 1000000000 := rfl
    refine congrArg (fun n : Nat => some (n : Int)) ?_
    rw [hnanos]
    omega
  nanos t h := by
    have hlt : t % nanosPerSecond < 1000000000 := Nat.mod_lt _ (by decide)
    have hoffset : ['+', '0', '0', ':', '0', '0'] ∈ utcOffsets :=
      List.mem_cons_of_mem _ List.mem_cons_self
    rw [toRfc3339_eq_stampText,
      parseStamp_stampText h (readFraction_fractionText hlt hoffset) hoffset]
    exact congrArg (fun n : Nat => some (n : Int)) (Nat.div_add_mod' t nanosPerSecond)
  micros_far t h _ := by rw [formatTimestamp_eq_stampText, parseStamp_stampText_far h]
  nanos_far t h _ := by rw [toRfc3339_eq_stampText, parseStamp_stampText_far h]

end AgentHub.Channels
