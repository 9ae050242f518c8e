import AgentHub.Channels.Claims

/-!
# Adding a lifetime to the time

A lifetime is a number of seconds of 64 bits.  It is cut off at the greatest `i64`, made a
`TimeDelta`, and added to the time; the last two panic where their result is out of range, which is no
result here.  Times are nanoseconds since the epoch.

A lease that is printed is read again by `parse_from_rfc3339`, whose years have four digits.
-/

namespace AgentHub.Channels

def i64Max : Nat := 9223372036854775807

/-- `i64::try_from(ttl).unwrap_or(i64::MAX)`. -/
def lifetimeSeconds (ttl : Nat) : Nat := min ttl i64Max

/-- `TimeDelta::seconds`: the milliseconds are an `i64`. -/
def timeDelta (seconds : Nat) : Option Nat :=
  if seconds ≤ i64Max / 1000 then some (seconds * nanosPerSecond) else none

/-- `DateTime<Utc> + TimeDelta`. -/
def addDelta (t delta : Nat) : Option Nat :=
  if t + delta < calendarEnd * nanosPerSecond then some (t + delta) else none

def addLifetime (now ttl : Nat) : Option Nat :=
  (timeDelta (lifetimeSeconds ttl)).bind (addDelta now)

/-- The fraction of a second: none, or three, six or nine digits. -/
def fractionText (nanos : Nat) : List Char :=
  if nanos = 0 then []
  else if nanos % 1000000 = 0 then '.' :: Cloud.padded 3 (nanos / 1000000)
  else if nanos % 1000 = 0 then '.' :: Cloud.padded 6 (nanos / 1000)
  else '.' :: Cloud.padded 9 nanos

/-- `DateTime<Utc>::to_rfc3339`. -/
def toRfc3339 (t : Nat) : String :=
  let date := Cloud.civilFromDays (t / nanosPerSecond / 86400 : Nat)
  let second := t / nanosPerSecond % 86400
  String.ofList
    (yearDigits date.year.toNat ++ '-' :: (Cloud.padded 2 date.month ++ '-' ::
      (Cloud.padded 2 date.day ++ 'T' :: (Cloud.padded 2 (second / 3600) ++ ':' ::
      (Cloud.padded 2 (second / 60 % 60) ++ ':' :: (Cloud.padded 2 (second % 60) ++
      (fractionText (t % nanosPerSecond) ++ ['+', '0', '0', ':', '0', '0'])))))))

/-- The first second of the year 10000. -/
def yearTenThousand : Nat := 253402300800

/-- What `parse_from_rfc3339` reads of the dates the hub prints: those of years with four digits, and
no others. -/
structure ReadsDates (parse : String → Option Int) : Prop where
  micros : ∀ t, t < yearTenThousand * nanosPerSecond →
    parse (formatTimestamp t) = some ((t / 1000 * 1000 : Nat) : Int)
  nanos : ∀ t, t < yearTenThousand * nanosPerSecond → parse (toRfc3339 t) = some (t : Int)
  micros_far : ∀ t, yearTenThousand * nanosPerSecond ≤ t → t < calendarEnd * nanosPerSecond →
    parse (formatTimestamp t) = none
  nanos_far : ∀ t, yearTenThousand * nanosPerSecond ≤ t → t < calendarEnd * nanosPerSecond →
    parse (toRfc3339 t) = none

end AgentHub.Channels
