import AgentHub.Outbox.Journal

/-!
# Submitting a request

`submitJournal` retains one request, flushes up to 16 of the retained ones and says what became of
the new one.  `runFlush` is the loop of `flush` from its head to its return: the steps of the
`Handle`, with what the storage and the transport make of them taken from `Surroundings`.
-/

namespace AgentHub.Outbox

open AgentHub.Json AgentHub.Validation

/-- What the storage does under the `n`-th step of a call, and what the transport answers in it. -/
structure Surroundings where
  io : Nat → AppendIo
  answer : Nat → Answer

/-- The step a running flush makes next. -/
def Phase.next (env : Surroundings) (n : Nat) : Phase → Option Call
  | .idle => none
  | .scanning _ => some (.advance (env.io n))
  | .calling _ _ => some (.answer (env.answer n))
  | .answered _ _ _ => some (.conclude (env.io n))

/-- How many steps a running flush can still make. -/
def Phase.budget : Phase → Nat
  | .idle => 0
  | .scanning f => 3 * f.queue.length + 1
  | .calling f _ => 3 * f.queue.length + 3
  | .answered f _ _ => 3 * f.queue.length + 2

def Output.flushed? : Output → Option (Except OutboxError FlushReport)
  | .flushed _ result => some result
  | _ => none

/-- What `flush` leaves: its result, the journal, the file and what was done on the way. -/
structure Flushed where
  result : Except OutboxError FlushReport
  handle : Handle
  file : JournalFile
  outs : List Output

/-- Go on with a running flush until it returns. -/
def runFlush (env : Surroundings) : Nat → Nat → Handle → JournalFile → List Output → Option Flushed
  | 0, _, _, _, _ => none
  | fuel + 1, n, h, file, outs =>
    match h.phase.next env n with
    | none => none
    | some call =>
      match h.step file call with
      | (h, file, more) =>
        match more.findSome? Output.flushed? with
        | some result => some { result, handle := h, file, outs := outs ++ more }
        | none => runFlush env fuel (n + 1) h file (outs ++ more)

/-- `Journal::flush`. -/
def Handle.flush (env : Surroundings) (h : Handle) (file : JournalFile) (nowMs : UInt64)
    (limit : Nat) : Option Flushed :=
  match h.step file (.flush nowMs limit) with
  | (h, file, outs) => runFlush env h.phase.budget 1 h file outs

/-! ### The answer -/

/-- `BTreeMap::get` for the maps of a report. -/
def getEntry {α : Type} (id : Uuid) (m : List (Uuid × α)) : Option α :=
  (m.find? fun kv => kv.1 = id).map Prod.snd

/-- The ways a submission can end. -/
inductive Submitted where
  /-- `enqueue` failed. -/
  | refused
  /-- The flush failed on the way. -/
  | recovery (request : ReplayRequest)
  | rejected (request : ReplayRequest)
  | dropped (request : ReplayRequest) (disposition : Disposition) (remaining : Nat)
  | applied (request : ReplayRequest) (result : Value)
  | queued (request : ReplayRequest) (report : FlushReport)

/-- What a report says about one request. -/
def classify (request : ReplayRequest) (report : FlushReport) : Submitted :=
  if report.rejected > 0 ∧ report.blockedRequest = some request.requestId then .rejected request
  else
    let retained :=
      match getEntry request.requestId report.results with
      | some result => .applied request result
      -- An older request can be rejected while this one stays queued: a failure without the
      -- request's identifier would make the caller submit it twice.
      | none => .queued request report
    match getEntry request.requestId report.dispositions with
    | some .expired => .dropped request .expired report.remaining
    | some .superseded => .dropped request .superseded report.remaining
    | _ => retained

/-- What the caller of `submit_journal` receives. -/
def Submitted.render : Submitted → Except AgentBusError Value
  | .refused => .error (.invalidParams
    "durable enqueue failed; retention is not established, preserve journal")
  | .recovery request => .ok (.obj
    [("claim_granted", .bool false),
     ("error", .str "durable settlement failed; preserve journal and original request identity"),
     ("operation", .str request.operation.asStr),
     ("request_id", .str request.requestId.toString),
     ("retry_new_submission", .bool false),
     ("status", .str "pending_recovery")])
  | .rejected _ => .error (.invalidParams
    "durable replay rejected; no offline grant or unsafe fallback")
  | .dropped request disposition remaining => .ok (.obj
    [("claim_granted", .bool false),
     ("operation", .str request.operation.asStr),
     ("pending", .int remaining),
     ("request_id", .str request.requestId.toString),
     ("retained", .bool false),
     ("status", .str disposition.asStr)])
  | .applied _ result => .ok result
  | .queued request report => .ok (.obj
    [("blocked_request_id", match report.blockedRequest with
      | some id => .str id.toString
      | none => .null),
     ("claim_granted", .bool false),
     ("older_request_rejected", .bool (report.rejected > 0)),
     ("operation", .str request.operation.asStr),
     ("pending", .int report.remaining),
     ("request_id", .str request.requestId.toString),
     ("status", .str "queued")])

/-- How the submission of a request ends with the flush that follows it. -/
def Flushed.outcome (flushed : Flushed) (request : ReplayRequest) : Submitted :=
  match flushed.result with
  | .error _ => .recovery request
  | .ok report => classify request report

/-- A submission as it ended, with the journal it leaves. -/
structure Submission where
  outcome : Submitted
  handle : Handle
  file : JournalFile
  outs : List Output

/-- `submit_journal`, on the journal of an idle handle. -/
def submitJournal (env : Surroundings) (h : Handle) (file : JournalFile) (operation : Operation)
    (surface : ClientSurface) (arguments : Fields) (nowMs : UInt64) (requestId : Uuid) :
    Option Submission :=
  match h.journal.enqueue file operation surface arguments nowMs requestId (env.io 0) with
  | (.error _, journal, file) =>
    some { outcome := .refused, handle := { h with journal }, file, outs := [] }
  | (.ok request, journal, file) =>
    (Handle.flush env { h with journal } file nowMs 16).map fun flushed =>
      { outcome := flushed.outcome request
        handle := flushed.handle, file := flushed.file, outs := flushed.outs }

end AgentHub.Outbox
