import AgentHub.Machine
import AgentHub.Postgres.Persist

/-!
# The write-behind queue

`PgWriter` puts messages and presences into a channel, and a background task takes them out, persists
them in batches and counts what became of each.  The callers and the task touch the counters one at a
time, so each access is a step of its own: `Writer.machine` interleaves any number of callers with
the task, its timer and its exit.
-/

namespace AgentHub.Postgres

/-- An item in the queue, with the call that put it there. -/
structure Entry where
  caller : Nat
  id : Nat
  item : Item
  deriving DecidableEq

inductive Request where
  | item (entry : Entry)
  /-- A flush, and whether the call waits for its completion. -/
  | flush (caller id : Nat) (completion : Bool)
  | shutdown
  deriving DecidableEq

def Request.entry? : Request → Option Entry
  | .item entry => some entry
  | _ => none

/-- The items among some requests. -/
def entries (rs : List Request) : List Entry := rs.filterMap Request.entry?

def Item.isMessage : Item → Bool
  | .message _ => true
  | .presence _ => false

/-! ### Callers -/

inductive WriterCall where
  /-- `send_message` or `send_presence`. -/
  | send (item : Item)
  | flush
  | flushAndWait
  | shutdown

/-- Where a holder of a `PgWriter` stands. -/
inductive CallerPhase where
  | idle
  /-- It has dropped its clone. -/
  | gone
  /-- `pending` counts the item, and it is sent next. -/
  | sending (entry : Entry)
  /-- The task was gone: `pending` is taken back next. -/
  | bounced (entry : Entry)
  /-- `dropped_writes` is raised next. -/
  | dropping (entry : Entry)
  /-- `messages_queued` is raised next. -/
  | counting (entry : Entry)
  | flushing (id : Nat) (wait : Bool)
  | awaiting (id : Nat)
  | stopping
  deriving DecidableEq

/-! ### The task -/

/-- Where the task goes on after a flush. -/
inductive Next where
  | select
  | drain
  | leave
  deriving DecidableEq

/-- What follows a flush: the completion of the call that asked for it, and where to go on. -/
structure After where
  complete : Option (Nat × Nat)
  next : Next
  deriving DecidableEq

inductive TaskPhase where
  /-- At the `select!`. -/
  | selecting
  /-- In the loop that follows a shutdown. -/
  | draining
  /-- In `flush_pg_batch`, before the next item. -/
  | flushing (rest : List Entry) (after : After)
  /-- The item was persisted, or not; `pending` is lowered next. -/
  | settling (entry : Entry) (ok : Bool) (rest : List Entry) (after : After)
  /-- `messages_written` or `write_errors` is raised next. -/
  | counting (entry : Entry) (ok : Bool) (rest : List Entry) (after : After)
  /-- `dropped_writes` is raised next. -/
  | dropping (rest : List Entry) (after : After)
  | completing (call : Nat × Nat) (next : Next)
  /-- The task returns next. -/
  | leaving
  | exited
  deriving DecidableEq

def Next.phase : Next → TaskPhase
  | .select => .selecting
  | .drain => .draining
  | .leave => .leaving

def After.phase (after : After) : TaskPhase :=
  match after.complete with
  | some call => .completing call after.next
  | none => after.next.phase

def pgBatchSize : Nat := 20

structure PgWriteMetrics where
  messagesQueued : Nat := 0
  messagesWritten : Nat := 0
  batchesFlushed : Nat := 0
  writeErrors : Nat := 0
  droppedWrites : Nat := 0

/-- The writers, the task and what they share.  The lists from `sent` on are what an observer
remembers. -/
structure Writer where
  callers : List CallerPhase := [.idle]
  /-- The calls begun so far number the next one. -/
  calls : Nat := 0
  channel : List Request := []
  batch : List Entry := []
  task : TaskPhase := .selecting
  pending : Nat := 0
  metrics : PgWriteMetrics := {}
  breaker : Option Nat := none
  inserted : List Entry := []
  /-- The flush calls whose one-shot was answered. -/
  completed : List (Nat × Nat) := []
  sent : List Request := []
  received : List Request := []
  settled : List Entry := []
  refused : List Entry := []
  /-- What was left in the channel when the task returned. -/
  lost : List Request := []

inductive WriterInput where
  | clone
  | drop (caller : Nat)
  | call (caller : Nat) (call : WriterCall)
  /-- The next step of a caller. -/
  | proceed (caller : Nat)
  /-- The time a caller waits for its flush is over. -/
  | timeout (caller : Nat)
  /-- The timer branch of the `select!`. -/
  | tick
  /-- Its receive branch. -/
  | receive
  | persist (io : PersistIo)
  /-- Any other step of the task. -/
  | advance

inductive WriterOutput where
  /-- `flush_and_wait` returns. -/
  | flushed (caller id : Nat) (drained : Bool)
  /-- An item was handed to PostgreSQL, and whether it is stored. -/
  | persisted (entry : Entry) (stored : Bool)
  deriving DecidableEq

namespace Writer

/-- Replace the phase of a caller. -/
def setCaller (w : Writer) (c : Nat) (phase : CallerPhase) : Writer :=
  { w with callers := w.callers.set c phase }

/-- A request goes into the channel. -/
def push (w : Writer) (r : Request) : Writer :=
  { w with channel := w.channel ++ [r], sent := w.sent ++ [r] }

/-- Whether a send fails: the receiver is gone. -/
def closed (w : Writer) : Bool := w.task = .exited

def begin (w : Writer) (c : Nat) : WriterCall → Writer
  | .send item =>
    { w.setCaller c (.sending ⟨c, w.calls, item⟩) with
      calls := w.calls + 1, pending := w.pending + 1 }
  | .flush => { w.setCaller c (.flushing w.calls false) with calls := w.calls + 1 }
  | .flushAndWait => { w.setCaller c (.flushing w.calls true) with calls := w.calls + 1 }
  | .shutdown => w.setCaller c .stopping

/-- The next step of a caller. -/
def proceed (w : Writer) (c : Nat) : CallerPhase → Writer × List WriterOutput
  | .sending entry =>
    if w.closed then
      ({ w.setCaller c (.bounced entry) with refused := w.refused ++ [entry] }, [])
    else ((w.push (.item entry)).setCaller c (.counting entry), [])
  | .bounced entry =>
    ({ w.setCaller c (if entry.item.isMessage then .dropping entry else .counting entry) with
      pending := w.pending - 1 }, [])
  | .dropping entry =>
    ({ w.setCaller c (.counting entry) with
      metrics := { w.metrics with droppedWrites := w.metrics.droppedWrites + 1 } }, [])
  | .counting _ =>
    ({ w.setCaller c .idle with
      metrics := { w.metrics with messagesQueued := w.metrics.messagesQueued + 1 } }, [])
  | .flushing id wait =>
    if w.closed then (w.setCaller c .idle, if wait then [.flushed c id false] else [])
    else ((w.push (.flush c id wait)).setCaller c (if wait then .awaiting id else .idle), [])
  | .awaiting id =>
    -- A one-shot whose sender was dropped answers the wait as well.
    if (c, id) ∈ w.completed ∨ w.closed then (w.setCaller c .idle, [.flushed c id true])
    else (w, [])
  | .stopping =>
    if w.closed then (w.setCaller c .idle, [])
    else ((w.push .shutdown).setCaller c .idle, [])
  | .idle | .gone => (w, [])

/-- `flush_pg_batch` where the batch is not empty, and what follows. -/
def flushThen (w : Writer) (after : After) : Writer :=
  if w.batch = [] then { w with task := after.phase }
  else { w with batch := [], task := .flushing w.batch after }

/-- A request is taken out of the channel. -/
def take (w : Writer) (r : Request) (rest : List Request) : Writer :=
  { w with channel := rest, received := w.received ++ [r] }

/-- The completion of a flush. -/
def completion (c id : Nat) (wait : Bool) : Option (Nat × Nat) := if wait then some (c, id) else none

def receive (w : Writer) : Writer :=
  match w.channel with
  | [] => if w.callers.all (· = .gone) then w.flushThen ⟨none, .leave⟩ else w
  | .shutdown :: rest => { w.take .shutdown rest with task := .draining }
  | .flush c id wait :: rest =>
    (w.take (.flush c id wait) rest).flushThen ⟨completion c id wait, .select⟩
  | .item entry :: rest =>
    let w := { w.take (.item entry) rest with batch := w.batch ++ [entry] }
    if pgBatchSize ≤ w.batch.length then w.flushThen ⟨none, .select⟩ else w

/-- One turn of the loop that follows a shutdown. -/
def drainNext (w : Writer) : Writer :=
  match w.channel with
  | [] => w.flushThen ⟨none, .leave⟩
  | .shutdown :: rest => w.take .shutdown rest
  | .flush c id wait :: rest =>
    (w.take (.flush c id wait) rest).flushThen ⟨completion c id wait, .drain⟩
  | .item entry :: rest => { w.take (.item entry) rest with batch := w.batch ++ [entry] }

/-- Count a settled item. -/
def count (w : Writer) (entry : Entry) (ok : Bool) (rest : List Entry) (after : After) : Writer :=
  if ok then
    { w with
      metrics := { w.metrics with messagesWritten := w.metrics.messagesWritten + 1 }
      settled := w.settled ++ [entry]
      task := .flushing rest after }
  else
    { w with
      metrics := { w.metrics with writeErrors := w.metrics.writeErrors + 1 }
      settled := w.settled ++ [entry]
      task := if entry.item.isMessage then .dropping rest after else .flushing rest after }

/-- A step of the task that no choice of its surroundings enters. -/
def advance (w : Writer) : Writer :=
  match w.task with
  | .draining => w.drainNext
  | .flushing [] after =>
    { w with
      metrics := { w.metrics with batchesFlushed := w.metrics.batchesFlushed + 1 }
      task := after.phase }
  | .settling entry ok rest after =>
    { w with pending := w.pending - 1, task := .counting entry ok rest after }
  | .counting entry ok rest after => w.count entry ok rest after
  | .dropping rest after =>
    { w with
      metrics := { w.metrics with droppedWrites := w.metrics.droppedWrites + 1 }
      task := .flushing rest after }
  | .completing call next => { w with completed := w.completed ++ [call], task := next.phase }
  | .leaving => { w with channel := [], lost := w.channel, task := .exited }
  | _ => w

section Step

variable (parsers : Parsers) (configured : Bool)

/-- The item at hand is persisted. -/
def persistNext (w : Writer) (io : PersistIo) : Writer × List WriterOutput :=
  match w.task with
  | .flushing (entry :: rest) after =>
    match persist parsers configured w.breaker entry.item io with
    | (.ok stored, breaker) =>
      ({ w with
        breaker
        inserted := if stored then w.inserted ++ [entry] else w.inserted
        task := .settling entry true rest after }, [.persisted entry stored])
    | (.error _, breaker) =>
      ({ w with breaker, task := .settling entry false rest after }, [.persisted entry false])
  | _ => (w, [])

def step (w : Writer) : WriterInput → Writer × List WriterOutput
  | .clone =>
    if w.callers.all (· = .gone) then (w, []) else ({ w with callers := w.callers ++ [.idle] }, [])
  | .drop c =>
    match w.callers[c]? with
    | some .idle => (w.setCaller c .gone, [])
    | _ => (w, [])
  | .call c call =>
    match w.callers[c]? with
    | some .idle => (w.begin c call, [])
    | _ => (w, [])
  | .proceed c =>
    match w.callers[c]? with
    | some phase => w.proceed c phase
    | none => (w, [])
  | .timeout c =>
    match w.callers[c]? with
    | some (.awaiting id) => (w.setCaller c .idle, [.flushed c id false])
    | _ => (w, [])
  | .tick =>
    match w.task with
    | .selecting => (if w.batch = [] then w else w.flushThen ⟨none, .select⟩, [])
    | _ => (w, [])
  | .receive =>
    match w.task with
    | .selecting => (w.receive, [])
    | _ => (w, [])
  | .persist io => w.persistNext parsers configured io
  | .advance => (w.advance, [])

/-- The write-behind queue and everything that uses it. -/
def machine : Machine Writer WriterInput WriterOutput := ⟨step parsers configured⟩

end Step

end Writer

end AgentHub.Postgres
