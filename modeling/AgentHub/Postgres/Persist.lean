import AgentHub.Sync.Message

/-!
# Persisting one item

`persist_message_postgres` and `persist_presence_postgres`: the checks of an item before its insert,
the retries around them, and the process-wide circuit breaker those retries read and set.
-/

namespace AgentHub.Postgres

/-- The parsers of the `uuid` and `chrono` libraries. -/
structure Parsers where
  /-- `Uuid::parse_str` succeeds. -/
  isUuid : String → Bool
  /-- `DateTime::parse_from_rfc3339` succeeds. -/
  isRfc3339 : String → Bool

/-- What is written behind the bus. -/
inductive Item where
  | message (message : Sync.Message)
  | presence (presence : Hub.Presence)
  deriving DecidableEq

inductive PgError where
  | circuitOpen
  | database
  | invalidId
  | invalidTimestamp
  | originSeqExceeds
  | ttlExceeds
  deriving DecidableEq, Repr

/-! ### The checks of an item -/

/-- The text `parse_timestamp_utc` hands to the parser. -/
def timestampText (timestampUtc : String) : String :=
  String.ofList (timestampUtc.toList.flatMap fun c =>
    if c = 'Z' then ['+', '0', '0', ':', '0', '0'] else [c])

def parsesTimestamp (parsers : Parsers) (timestampUtc : String) : Bool :=
  parsers.isRfc3339 (timestampText timestampUtc)

/-- `i64::try_from`. -/
def fitsI64 (n : Nat) : Bool := n < 2 ^ 63

/-- The parts of an insert that are converted before it is sent. -/
def checkItem (parsers : Parsers) : Item → Except PgError Unit
  | .message m =>
    if !parsers.isUuid m.id then .error .invalidId
    else if !parsesTimestamp parsers m.timestampUtc then .error .invalidTimestamp
    else if !m.originSeq.all (fun seq => fitsI64 seq.toNat) then .error .originSeqExceeds
    else .ok ()
  | .presence p =>
    if !parsesTimestamp parsers p.timestampUtc then .error .invalidTimestamp
    else if !fitsI64 p.ttlSeconds then .error .ttlExceeds
    else .ok ()

/-! ### Attempts -/

/-- How the database meets one attempt. -/
inductive AttemptIo where
  /-- No connection, or its storage could not be prepared. -/
  | unreachable
  | rejected
  /-- A row with the same key is in the way. -/
  | conflicting
  | accepted
  deriving DecidableEq, Repr

/-- One attempt, with whether it stored a row.  Without a configured database there is none to
store. -/
def attempt (parsers : Parsers) (configured : Bool) (item : Item) (io : AttemptIo) :
    Except PgError Bool :=
  if !configured then .ok false
  else match io with
    | .unreachable => .error .database
    | .rejected =>
      match checkItem parsers item with
      | .error error => .error error
      | .ok () => .error .database
    | .conflicting =>
      match checkItem parsers item with
      | .error error => .error error
      | .ok () =>
        match item with
        -- `on conflict do nothing`
        | .message _ => .ok false
        | .presence _ => .error .database
    | .accepted =>
      match checkItem parsers item with
      | .error error => .error error
      | .ok () => .ok true

def pgMaxRetries : Nat := 3

def pgCircuitBreakerSeconds : Nat := 60

/-- `is_pg_circuit_open`, with times in nanoseconds. -/
def isPgCircuitOpen (breaker : Option Nat) (now : Nat) : Bool :=
  breaker.any fun since => (now - since) / 1000000000 < pgCircuitBreakerSeconds

/-- The surroundings of one item: when the breaker is read, when it is set, and how the database
meets each attempt. -/
structure PersistIo where
  start : Nat
  finish : Nat
  attempts : Nat → AttemptIo

/-- The attempts left, from the `k`-th on. -/
def tryAttempts (operation : AttemptIo → Except PgError Bool) (attempts : Nat → AttemptIo) :
    Nat → Nat → PgError → Except PgError Bool
  | 0, _, last => .error last
  | n + 1, k, _ =>
    match operation (attempts k) with
    | .ok stored => .ok stored
    | .error error => tryAttempts operation attempts n (k + 1) error

/-- `with_pg_retry`: a success closes the breaker, and running out of attempts opens it. -/
def withPgRetry (breaker : Option Nat) (io : PersistIo)
    (operation : AttemptIo → Except PgError Bool) : Except PgError Bool × Option Nat :=
  if isPgCircuitOpen breaker io.start then (.error .circuitOpen, breaker)
  else match tryAttempts operation io.attempts pgMaxRetries 0 .database with
    | .ok stored => (.ok stored, none)
    | .error error => (.error error, some io.finish)

/-- `persist_message_postgres` and `persist_presence_postgres`. -/
def persist (parsers : Parsers) (configured : Bool) (breaker : Option Nat) (item : Item)
    (io : PersistIo) : Except PgError Bool × Option Nat :=
  withPgRetry breaker io (attempt parsers configured item)

end AgentHub.Postgres
