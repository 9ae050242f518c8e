import AgentHub.Cloud.Import
import AgentHub.Program

/-!
# Runs of the importer

`main` pushes the rows that are not behind the offset its state file gives, 500 at a time, and moves
the offset after each push.  It exits with an error where rows were rejected, of those it pushed
itself.

A run may be stopped before or after a push and before or after it saves its state.  The Worker
answers the rows one by one; what it rejects it rejects whenever it is asked.
-/

namespace AgentHub.Cloud

open AgentHub.Json

/-! ### Rows of presence -/

/-- The functions of Python's library that read a row of presence. -/
structure PresencePython extends Python where
  /-- `int` of a text. -/
  int : String → Option Int

/-- A row of the export of presence events. -/
structure PresenceExportRow where
  id : String
  timestampUtc : String
  protocolVersion : String
  agent : String
  status : String
  sessionId : String
  capabilities : String
  metadata : String
  ttlSeconds : String

variable (python : PresencePython)

/-- `presence_item`; a text that cannot be converted is an error. -/
def presenceItem (row : PresenceExportRow) : Option Value := do
  let originId ← python.int row.id
  let timestampUtc ← pgTsToUtc python.toPython row.timestampUtc
  let capabilities ← pgJson python.toPython row.capabilities (.arr [])
  let metadata ← pgJson python.toPython row.metadata (.obj [])
  let ttlSeconds ← if row.ttlSeconds.isEmpty then some .null else (python.int row.ttlSeconds).map .int
  return .obj
    [("origin_id", .int originId),
     ("timestamp_utc", .str timestampUtc),
     ("protocol_version", .str (if row.protocolVersion.isEmpty then "1.0" else row.protocolVersion)),
     ("agent", .str row.agent),
     ("status", .str row.status),
     ("session_id", if row.sessionId.isEmpty then .null else .str row.sessionId),
     ("capabilities", capabilities),
     ("metadata", metadata),
     ("ttl_seconds", ttlSeconds)]

/-! ### Calls -/

/-- The exports, each with its route and its offset. -/
inductive ImportStream where
  | messages
  | presence
  deriving DecidableEq

/-- The name of its offset in the state. -/
def ImportStream.offsetKey : ImportStream → String
  | .messages => "messages_offset"
  | .presence => "presence_offset"

/-- What the Worker does with a row. -/
inductive Answer where
  | accepted
  | duplicate
  | conflict
  | rejected
  deriving DecidableEq

/-- What a run does to the world. -/
inductive ImportCall where
  /-- `load_state`: what the state file holds, if it is there. -/
  | loadState
  /-- `post` of the rows from `off` on, to `/sync/push` or `/sync/push-presence`. -/
  | post (stream : ImportStream) (off : Nat) (batch : List Value)
  /-- `save_state`: the file is replaced at once. -/
  | saveState (state : Fields)

abbrev ImportCall.Reply : ImportCall → Type
  | .loadState => Option Value
  | .post _ _ _ => List Answer
  | .saveState _ => Unit

/-! ### The run -/

/-- What a run is given: the exports, the settings and whether there is a state file.  `binding` holds
the digests of the inputs and the settings. -/
structure ImportJob where
  originHub : String
  originHost : String
  messages : Option (List ExportRow)
  presence : Option (List PresenceExportRow)
  excludedIds : List String
  statePath : Bool
  dryRun : Bool
  allowRejects : Bool
  token : String
  binding : Fields

/-- The counts of a summary. -/
structure Counts where
  rows : Nat
  toSend : Nat
  skipped : Nat
  accepted : Nat
  duplicates : Nat
  conflicts : Nat
  rejected : Nat
  deriving DecidableEq

/-- The counts with those of one more response. -/
def Counts.add (counts : Counts) (answers : List Answer) : Counts :=
  { counts with
    accepted := counts.accepted + answers.count .accepted
    duplicates := counts.duplicates + answers.count .duplicate
    conflicts := counts.conflicts + answers.count .conflict
    rejected := counts.rejected + answers.count .rejected }

structure ImportSummary where
  messages : Option Counts
  presence : Option Counts
  deriving DecidableEq

def ImportSummary.totalRejected (summary : ImportSummary) : Nat :=
  (summary.messages.map Counts.rejected).getD 0 + (summary.presence.map Counts.rejected).getD 0

abbrev ImportProgram := Program ImportCall ImportCall.Reply String

/-- An offset that is absent is 0; one that is no integer from 0 on is refused. -/
def checkOffset (state : Fields) (key : String) : Except String Nat :=
  match Fields.get state key with
  | none => .ok 0
  | some (.int n) =>
    if n < 0 then .error "resume offsets must be nonnegative integers" else .ok n.toNat
  | some _ => .error "resume offsets must be nonnegative integers"

/-- `bind_resume_state`. -/
def bindResumeState (state binding : Fields) : Except String Fields := do
  let messagesOffset ← checkOffset state "messages_offset"
  let presenceOffset ← checkOffset state "presence_offset"
  match Fields.get state "binding" with
  | none | some .null =>
    if messagesOffset ≠ 0 ∨ presenceOffset ≠ 0 then
      .error "unbound nonzero legacy resume state refused"
    else .ok (Fields.insert state "binding" (.obj binding))
  | some previous =>
    if previous ≠ .obj binding then
      .error "resume input or import settings changed; state refused"
    else .ok (Fields.insert state "binding" (.obj binding))

/-- The offset a state gives. -/
def offsetOf (state : Fields) (stream : ImportStream) : Nat :=
  match Fields.get state stream.offsetKey with
  | some (.int n) => n.toNat
  | _ => 0

/-- `BATCH`. -/
def batchSize : Nat := 500

/-- `range` of Python. -/
def pyRange (start stop step : Nat) : List Nat :=
  List.range' start ((stop - start + (step - 1)) / step) step

section Run

variable (job : ImportJob)

/-- What a state file holds is a state. -/
def stateOf : Option Value → Except String Fields
  | none => .ok []
  | some (.obj state) => .ok state
  | some _ => .error "resume state must be a JSON object"

def loadState : ImportProgram Fields := do
  if job.statePath then
    let file ← Program.perform ImportCall.loadState
    stateOf file
  else return []

def saveState (state : Fields) : ImportProgram Unit :=
  if job.statePath then Program.perform (ImportCall.saveState state) else pure ()

/-- The loop over the batches of an export, from the offsets that are left. -/
def sendRows (stream : ImportStream) (items : List Value) :
    List Nat → Fields → Counts → ImportProgram (Fields × Counts)
  | [], state, counts => pure (state, counts)
  | off :: offs, state, counts =>
    let batch := (items.drop off).take batchSize
    if job.dryRun then sendRows stream items offs state counts
    else do
      let answers ← Program.perform (ImportCall.post stream off batch)
      let state := Fields.insert state stream.offsetKey (.int (off + batch.length : Nat))
      saveState job state
      sendRows stream items offs state (counts.add answers)

/-- The rows of an export that are not behind the offset. -/
def sendItems (stream : ImportStream) (exceeds : String) (rows : Nat) (items : List Value)
    (state : Fields) : ImportProgram (Fields × Option Counts) := do
  let start := offsetOf state stream
  if items.length < start then .fail exceeds
  else
    let counts : Counts :=
      { rows, toSend := items.length, skipped := rows - items.length
        accepted := 0, duplicates := 0, conflicts := 0, rejected := 0 }
    let (state, counts) ← sendRows job stream items (pyRange start items.length batchSize) state counts
    return (state, some counts)

def sendMessages (state : Fields) : ImportProgram (Fields × Option Counts) :=
  match job.messages with
  | none => pure (state, none)
  | some rows =>
    match importItems python.toPython job.excludedIds job.originHub job.originHost rows with
    | none => .fail "a row of the messages cannot be converted"
    | some items =>
      sendItems job .messages "messages resume offset exceeds filtered export" rows.length items state

def sendPresence (state : Fields) : ImportProgram (Fields × Option Counts) :=
  match job.presence with
  | none => pure (state, none)
  | some rows =>
    match rows.mapM (presenceItem python) with
    | none => .fail "a row of the presence events cannot be converted"
    | some items =>
      sendItems job .presence "presence resume offset exceeds export" rows.length items state

/-- The state a run starts from: a preview never reads the checkpoint. -/
def startState : ImportProgram Fields := do
  if job.dryRun then return []
  else
    let state ← loadState job
    bindResumeState state job.binding

/-- An offset without its export. -/
def strayOffset (state : Fields) : Bool :=
  (job.messages.isNone && offsetOf state .messages ≠ 0) ||
    (job.presence.isNone && offsetOf state .presence ≠ 0)

/-- `main`, as far as its summary. -/
def importMain : ImportProgram ImportSummary := do
  if !job.dryRun && job.token.isEmpty then .fail "AGENTBUS_TOKEN is not set"
  else
    let state ← startState job
    if strayOffset job state then .fail "resume offset has no corresponding export"
    else
      let (state, messages) ← sendMessages python job state
      let (_, presence) ← sendPresence python job state
      return { messages, presence }

/-- What `main` returns; an error is 1 too. -/
def exitCode : Except String ImportSummary → Nat
  | .ok summary => if 0 < summary.totalRejected ∧ ¬ job.allowRejects then 1 else 0
  | .error _ => 1

end Run

/-! ### The world -/

/-- What outlives a run: the state file, and what the Worker has answered to which row. -/
structure ImportWorld where
  file : Option Value
  answered : List (ImportStream × Nat × Answer)

/-- What surrounds a call: whether the run is stopped before it or after it, and how the Worker
answers.  Events of presence have no conflicts. -/
structure ImportMoment (refused : ImportStream → Nat → Bool) where
  before : Bool
  after : Bool
  answer : ImportStream → Nat → Answer
  consistent : ∀ stream i, answer stream i = .rejected ↔ refused stream i = true
  eventful : ∀ i, answer .presence i ≠ .conflict

section World

variable {refused : ImportStream → Nat → Bool}

/-- What the Worker answers to a batch. -/
def ImportMoment.answers (moment : ImportMoment refused) (stream : ImportStream) (off n : Nat) :
    List Answer :=
  (List.range n).map fun k => moment.answer stream (off + k)

def ImportCall.effect (moment : ImportMoment refused) (world : ImportWorld) :
    (c : ImportCall) → ImportWorld × c.Reply
  | .loadState => (world, world.file)
  | .post stream off batch =>
    let answers := moment.answers stream off batch.length
    ({ world with
        answered := world.answered ++ answers.zipIdx.map fun a => (stream, off + a.2, a.1) },
      answers)
  | .saveState state => ({ world with file := some (.obj state) }, ())

def ImportCall.serve (c : ImportCall) (moment : ImportMoment refused) (world : ImportWorld) :
    ImportWorld × Option c.Reply :=
  if moment.before then (world, none)
  else
    let (world, reply) := c.effect moment world
    (world, if moment.after then none else some reply)

end World

/-- The surroundings of the calls of a run. -/
abbrev ImportRun (refused : ImportStream → Nat → Bool) := Nat → ImportMoment refused

/-- One run after the other, with one state file; it shows their exit codes. -/
def importer (job : ImportJob) (refused : ImportStream → Nat → Bool) :
    Machine ImportWorld (ImportRun refused) Nat where
  step world run :=
    let ended := (importMain python job).run ImportCall.serve "stopped" run world
    (ended.1, [exitCode job ended.2])

end AgentHub.Cloud
