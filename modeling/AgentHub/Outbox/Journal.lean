import Mathlib.Data.Finset.Basic
import AgentHub.Outbox.Record

/-!
# The journal

`Journal` is the in-memory state of an open journal and `JournalFile` the records on disk.  `load`
rebuilds the one from the other, `enqueue` and `settle` extend both, and a running `flush` is a
`Phase` of the `Handle` that owns the journal, so that a process can stop between any append and
any transport call.

Files are lists of events here; `Outbox/Record` has their bytes.
-/

namespace AgentHub.Outbox

open AgentHub.Json AgentHub.Validation

/-! ### Answers of a transport -/

inductive ReplayResponse where
  | applied (result : Value)
  /-- An expired or superseded request has no new effect. -/
  | superseded
  /-- A prior grant cannot be established yet; it must not be repeated. -/
  | pending
  deriving DecidableEq

inductive ReplayFailure where
  /-- The connection failed, possibly after the hub accepted the request. -/
  | transport
  | permanent
  deriving DecidableEq, Repr

abbrev Answer := Except ReplayFailure ReplayResponse

/-! ### Files -/

/-- A journal file.  `durable` holds the records whose append returned, and those a later reader
has read back; `unsynced` holds a record that was written completely although its append failed;
`torn` says that an incomplete record follows. -/
structure JournalFile where
  durable : List Event := []
  unsynced : List Event := []
  torn : Bool := false
  deriving DecidableEq

namespace JournalFile

/-- The complete records of the file, as a reader finds them. -/
def events (f : JournalFile) : List Event := f.durable ++ f.unsynced

/-- The bytes of the complete records. -/
def len (f : JournalFile) : Nat := (f.events.map recordLen).sum

/-- A reader has read every complete record. -/
def readBack (f : JournalFile) : JournalFile := { f with durable := f.events, unsynced := [] }

end JournalFile

/-! ### The in-memory journal -/

structure Journal where
  originId : Uuid
  nextSequence : UInt64
  /-- The retained requests, ordered by sequence. -/
  pending : List ReplayRequest
  poisoned : Bool
  attempted : Finset Uuid
  deriving DecidableEq

/-- `u64::checked_add`. -/
def checkedAdd (a b : UInt64) : Option UInt64 :=
  if a.toNat + b.toNat < 2 ^ 64 then some (a + b) else none

/-- `u64::checked_mul`. -/
def checkedMul (a b : Nat) : Option UInt64 :=
  if a * b < 2 ^ 64 then some (UInt64.ofNat (a * b)) else none

/-- `BTreeMap::insert` under the request's own sequence. -/
def insertPending (r : ReplayRequest) : List ReplayRequest → List ReplayRequest
  | [] => [r]
  | p :: ps =>
    if r.sequence < p.sequence then r :: p :: ps
    else if r.sequence = p.sequence then r :: ps
    else p :: insertPending r ps

/-- `BTreeMap::remove`. -/
def removePending (sequence : UInt64) (ps : List ReplayRequest) : List ReplayRequest :=
  ps.filter fun p => p.sequence ≠ sequence

/-! ### Loading -/

/-- What `load` knows while it goes through the records. -/
structure Loading where
  journal : Journal
  headerSeen : Bool
  bound : Option String
  allIds : Finset Uuid

def Loading.start (originId : Uuid) : Loading where
  journal :=
    { originId, nextSequence := 1, pending := [], poisoned := false, attempted := ∅ }
  headerSeen := false
  bound := none
  allIds := ∅

def applyHeader (expected : Option String) (s : Loading) (originId : Uuid) (stored : String) :
    Except OutboxError Loading :=
  if s.headerSeen ∨ s.allIds ≠ ∅ then .error .corrupt
  else if expected.any fun destination => stored ≠ destination then .error .scopeChanged
  else .ok { s with
    journal := { s.journal with originId }
    headerSeen := true
    bound := some stored }

def applyQueued (s : Loading) (request : ReplayRequest) : Except OutboxError Loading :=
  match request.validate with
  | .error _ => .error .corrupt
  | .ok () =>
    if !s.headerSeen ∨ request.originId ≠ s.journal.originId ∨
        request.sequence ≠ s.journal.nextSequence ∨ request.requestId ∈ s.allIds then
      .error .corrupt
    else match checkedAdd request.sequence 1 with
      | none => .error .corrupt
      | some nextSequence => .ok { s with
        journal := { s.journal with
          nextSequence
          pending := insertPending request s.journal.pending }
        allIds := insert request.requestId s.allIds }

def applyAttempted (s : Loading) (requestId : Uuid) : Except OutboxError Loading :=
  if !(s.journal.pending.any fun r => r.requestId = requestId) ∨
      requestId ∈ s.journal.attempted then
    .error .corrupt
  else .ok { s with
    journal := { s.journal with attempted := insert requestId s.journal.attempted } }

def applySettled (s : Loading) (requestId : Uuid) : Except OutboxError Loading :=
  match s.journal.pending.find? fun r => r.requestId = requestId with
  | none => .error .corrupt
  | some request => .ok { s with
    journal := { s.journal with
      pending := removePending request.sequence s.journal.pending
      attempted := s.journal.attempted.erase requestId } }

/-- One decoded record. -/
def applyRecord (expected : Option String) (s : Loading) : Event → Except OutboxError Loading
  | .header originId stored => applyHeader expected s originId stored
  | .queued request => applyQueued s request
  | .attempted requestId => applyAttempted s requestId
  | .settled requestId _ => applySettled s requestId

/-- One record of the file, with the size its line has. -/
def applyEvent (expected : Option String) (s : Loading) (event : Event) :
    Except OutboxError Loading :=
  if recordLen event - 1 > recordLimit then .error .corrupt
  else applyRecord expected s event

/-- The loop over the records. -/
def applyEvents (expected : Option String) : Loading → List Event → Except OutboxError Loading
  | s, [] => .ok s
  | s, event :: events => do
    let s ← applyEvent expected s event
    applyEvents expected s events

/-! ### Appending -/

/-- How the storage under an append behaves. -/
inductive AppendIo where
  | ok
  /-- Refused before anything is written: custody of the file, or its metadata. -/
  | refused (error : OutboxError)
  /-- Nothing was written. -/
  | lost
  /-- A part of the record was written. -/
  | torn
  /-- The whole record was written, but not synced. -/
  | unsynced
  deriving DecidableEq, Repr

def Journal.append (j : Journal) (file : JournalFile) (event : Event) (io : AppendIo) :
    Except OutboxError Unit × Journal × JournalFile :=
  if j.poisoned then (.error .corrupt, j, file)
  else match io with
    | .refused error => (.error error, j, file)
    | _ =>
      if recordLen event > recordLimit ∨ file.len + recordLen event > journalLimit then
        (.error .capacity, j, file)
      else match io with
        | .ok => (.ok (), j, { file with durable := file.events ++ [event], unsynced := [] })
        -- A failed write may have left an incomplete record, so the guard refuses reuse.
        | .unsynced =>
          (.error .io, { j with poisoned := true },
            { file with unsynced := file.unsynced ++ [event] })
        | .torn => (.error .io, { j with poisoned := true }, { file with torn := true })
        | _ => (.error .io, { j with poisoned := true }, file)

/-- Read a file, and bind it to `expected` when it is empty. -/
def load (file : JournalFile) (expected : Option String) (originId : Uuid) (io : AppendIo) :
    Except OutboxError (Journal × Option String) × JournalFile :=
  if file.len > journalLimit then (.error .capacity, file)
  else if file.torn then (.error .corrupt, file)
  else match applyEvents expected (Loading.start originId) file.events with
    | .error error => (.error error, file)
    | .ok s =>
      let file := file.readBack
      if s.headerSeen then
        if s.journal.pending.length > requestLimit then (.error .capacity, file)
        else (.ok (s.journal, s.bound), file)
      else if file.events ≠ [] then (.error .corrupt, file)
      else match expected with
        | none => (.ok (s.journal, none), file)
        | some destination =>
          match s.journal.append file (.header originId destination) io with
          | (.error error, _, file) => (.error error, file)
          | (.ok (), journal, file) => (.ok (journal, some destination), file)

/-! ### Retaining a request -/

/-- The lifetime `enqueue` stamps on a request. -/
def enqueueTtl (operation : Operation) (arguments : Fields) : Option UInt64 :=
  match operation with
  | .presence =>
    checkedMul (((arguments.get "ttl_seconds").bind Value.asU64).getD 180) 1000
  | .claimRequest =>
    checkedMul (((arguments.get "lease_ttl_seconds").bind Value.asU64).getD 3600) 1000
  | .send | .ack => some 0

/-- The request `enqueue` builds before it is validated. -/
def Journal.newRequest (j : Journal) (operation : Operation) (surface : ClientSurface)
    (arguments : Fields) (nowMs : UInt64) (requestId : Uuid) : Except OutboxError ReplayRequest :=
  match enqueueTtl operation arguments with
  | none => .error .invalidRequest
  | some ttl =>
    match if ttl = 0 then some 0 else checkedAdd nowMs ttl with
    | none => .error .invalidRequest
    | some expiresMs => .ok {
      requestId, originId := j.originId, sequence := j.nextSequence, createdMs := nowMs,
      expiresMs, operation, surface, arguments }

/-- The checks `enqueue` makes before it writes. -/
def Journal.prepare (j : Journal) (operation : Operation) (surface : ClientSurface)
    (arguments : Fields) (nowMs : UInt64) (requestId : Uuid) :
    Except OutboxError (ReplayRequest × UInt64) := do
  if j.pending.length ≥ requestLimit then .error .capacity
  let request ← j.newRequest operation surface arguments nowMs requestId
  request.validate
  match checkedAdd j.nextSequence 1 with
  | none => .error .capacity
  | some nextSequence => return (request, nextSequence)

def Journal.enqueue (j : Journal) (file : JournalFile) (operation : Operation)
    (surface : ClientSurface) (arguments : Fields) (nowMs : UInt64) (requestId : Uuid)
    (io : AppendIo) : Except OutboxError ReplayRequest × Journal × JournalFile :=
  match j.prepare operation surface arguments nowMs requestId with
  | .error error => (.error error, j, file)
  | .ok (request, nextSequence) =>
    match j.append file (.queued request) io with
    | (.error error, j, file) => (.error error, j, file)
    | (.ok (), j, file) =>
      (.ok request, { j with nextSequence, pending := insertPending request j.pending }, file)

def Journal.settle (j : Journal) (file : JournalFile) (request : ReplayRequest)
    (disposition : Disposition) (io : AppendIo) :
    Except OutboxError Unit × Journal × JournalFile :=
  match j.append file (.settled request.requestId disposition) io with
  | (.error error, j, file) => (.error error, j, file)
  | (.ok (), j, file) =>
    (.ok (), { j with
      pending := removePending request.sequence j.pending
      attempted := j.attempted.erase request.requestId }, file)

def Journal.markAttempted (j : Journal) (file : JournalFile) (request : ReplayRequest)
    (io : AppendIo) : Except OutboxError Unit × Journal × JournalFile :=
  match j.append file (.attempted request.requestId) io with
  | (.error error, j, file) => (.error error, j, file)
  | (.ok (), j, file) =>
    (.ok (), { j with attempted := insert request.requestId j.attempted }, file)

/-! ### Flushing -/

structure FlushReport where
  applied : Nat := 0
  expired : Nat := 0
  superseded : Nat := 0
  rejected : Nat := 0
  remaining : Nat := 0
  blockedRequest : Option Uuid := none
  results : List (Uuid × Value) := []
  dispositions : List (Uuid × Disposition) := []
  deriving DecidableEq

/-- `BTreeMap::insert` for the maps of a report. -/
def insertEntry {α : Type} (id : Uuid) (a : α) (m : List (Uuid × α)) : List (Uuid × α) :=
  m.filter (fun kv => kv.1 ≠ id) ++ [(id, a)]

/-- Count a settled request in the report. -/
def FlushReport.count (report : FlushReport) (id : Uuid) (disposition : Disposition) :
    FlushReport :=
  let report := { report with dispositions := insertEntry id disposition report.dispositions }
  match disposition with
  | .applied => { report with applied := report.applied + 1 }
  | .expired => { report with expired := report.expired + 1 }
  | .superseded => { report with superseded := report.superseded + 1 }
  | .rejected => { report with rejected := report.rejected + 1 }

/-- The locals of a running `flush`: its time, the part of its snapshot still to come and its
report.  `before` records how many requests were pending when it began. -/
structure Flush where
  nowMs : UInt64
  before : Nat
  queue : List ReplayRequest
  report : FlushReport
  deriving DecidableEq

/-- Where the owner of a journal stands. -/
inductive Phase where
  | idle
  /-- At the head of the loop of `flush`. -/
  | scanning (f : Flush)
  /-- `transport.replay(&request)` has been called. -/
  | calling (f : Flush) (request : ReplayRequest)
  /-- The transport has answered and nothing is recorded yet. -/
  | answered (f : Flush) (request : ReplayRequest) (answer : Answer)
  deriving DecidableEq

/-- An open journal and what its owner is doing with it. -/
structure Handle where
  journal : Journal
  phase : Phase

inductive Output where
  | enqueued (result : Except OutboxError ReplayRequest)
  | replayed (request : ReplayRequest)
  | answered (request : ReplayRequest) (answer : Answer)
  | flushed (before : Nat) (result : Except OutboxError FlushReport)

/-- A newer retained presence of the same agent. -/
def newerPresence (pending : List ReplayRequest) (request : ReplayRequest) : Bool :=
  pending.any fun newer =>
    request.sequence < newer.sequence && newer.operation = .presence &&
      newer.arguments.get "agent" = request.arguments.get "agent"

/-- What the owner of a journal does next, with what its surroundings answer. -/
inductive Call where
  | enqueue (operation : Operation) (surface : ClientSurface) (arguments : Fields)
      (nowMs : UInt64) (requestId : Uuid) (io : AppendIo)
  | flush (nowMs : UInt64) (limit : Nat)
  /-- Take the next request of the snapshot. -/
  | advance (io : AppendIo)
  | answer (answer : Answer)
  /-- Record the answer. -/
  | conclude (io : AppendIo)

namespace Handle

/-- `flush` returns its report. -/
def finish (h : Handle) (f : Flush) (file : JournalFile) : Handle × JournalFile × List Output :=
  ({ h with phase := .idle }, file,
    [.flushed f.before (.ok { f.report with remaining := h.journal.pending.length })])

/-- Settle a request and go on with the flush as `next` says; a failed append ends it. -/
def settleThen (h : Handle) (f : Flush) (file : JournalFile) (request : ReplayRequest)
    (disposition : Disposition) (io : AppendIo)
    (next : Handle → JournalFile → Handle × JournalFile × List Output) :
    Handle × JournalFile × List Output :=
  match h.journal.settle file request disposition io with
  | (.error error, journal, file) =>
    ({ journal, phase := .idle }, file, [.flushed f.before (.error error)])
  | (.ok (), journal, file) => next { h with journal } file

/-- Settle a request, count it and return to the head of the loop. -/
def settleNext (h : Handle) (f : Flush) (file : JournalFile) (request : ReplayRequest)
    (disposition : Disposition) (io : AppendIo) : Handle × JournalFile × List Output :=
  h.settleThen f file request disposition io fun h file =>
    ({ h with phase := .scanning { f with
        report := f.report.count request.requestId disposition } }, file, [])

/-- Call the transport. -/
def callTransport (h : Handle) (f : Flush) (file : JournalFile) (request : ReplayRequest) :
    Handle × JournalFile × List Output :=
  ({ h with phase := .calling f request }, file, [.replayed request])

/-- The body of the loop of `flush`, up to the call of the transport. -/
def advance (h : Handle) (f : Flush) (file : JournalFile) (io : AppendIo) :
    Handle × JournalFile × List Output :=
  match f.queue with
  | [] => h.finish f file
  | request :: queue =>
    let f := { f with queue }
    if request.requestId ∉ h.journal.attempted ∧ request.expiresMs ≠ 0 ∧
        request.expiresMs ≤ f.nowMs then
      h.settleNext f file request .expired io
    else if request.requestId ∉ h.journal.attempted ∧ request.operation = .presence ∧
        newerPresence h.journal.pending request then
      h.settleNext f file request .superseded io
    else if request.requestId ∉ h.journal.attempted then
      match h.journal.markAttempted file request io with
      | (.error error, journal, file) =>
        ({ journal, phase := .idle }, file, [.flushed f.before (.error error)])
      | (.ok (), journal, file) => { h with journal }.callTransport f file request
    else h.callTransport f file request

/-- The body of the loop of `flush`, from the answer of the transport on. -/
def conclude (h : Handle) (f : Flush) (file : JournalFile) (request : ReplayRequest)
    (answer : Answer) (io : AppendIo) : Handle × JournalFile × List Output :=
  match answer with
  | .ok (.applied result) =>
    h.settleNext { f with report := { f.report with
      results := insertEntry request.requestId result f.report.results } } file request .applied io
  | .ok .superseded => h.settleNext f file request .superseded io
  | .ok .pending | .error .transport =>
    h.finish { f with report := { f.report with blockedRequest := some request.requestId } } file
  | .error .permanent =>
    h.settleThen f file request .rejected io fun h file =>
      h.finish { f with report :=
        { f.report.count request.requestId .rejected with
          blockedRequest := some request.requestId } } file

/-- One step of the owner.  A call that does not fit the phase is no step. -/
def step (h : Handle) (file : JournalFile) (call : Call) : Handle × JournalFile × List Output :=
  match h.phase, call with
  | .idle, .enqueue operation surface arguments nowMs requestId io =>
    match h.journal.enqueue file operation surface arguments nowMs requestId io with
    | (result, journal, file) => ({ h with journal }, file, [.enqueued result])
  | .idle, .flush nowMs limit =>
    ({ h with phase := .scanning {
        nowMs
        before := h.journal.pending.length
        queue := h.journal.pending.take (min limit requestLimit)
        report := {} } }, file, [])
  | .scanning f, .advance io => h.advance f file io
  | .calling f request, .answer answer =>
    ({ h with phase := .answered f request answer }, file, [.answered request answer])
  | .answered f request answer, .conclude io => h.conclude f file request answer io
  | _, _ => (h, file, [])

end Handle

/-! ### Inspection -/

structure JournalInspection where
  destination : Option String
  originId : Option Uuid
  pending : List ReplayRequest
  attempted : Finset Uuid

/-- A request that expired and was never handed to a transport. -/
def JournalInspection.canRetireExpired (i : JournalInspection) (request : ReplayRequest)
    (nowMs : UInt64) : Bool :=
  request.expiresMs ≠ 0 && request.expiresMs ≤ nowMs && request.requestId ∉ i.attempted

def inspection (journal : Journal) (destination : Option String) : JournalInspection where
  destination
  originId := destination.map fun _ => journal.originId
  pending := journal.pending
  attempted := journal.attempted

end AgentHub.Outbox
