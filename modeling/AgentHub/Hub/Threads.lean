import AgentHub.Hub.Message
import AgentHub.Machine

/-!
# Threads

`create_thread`, `join_thread`, `leave_thread` and `close_thread` read the record of a thread, edit
it, and write it back.  `threadBus` runs the calls of any number of clients on one store, a Redis
command at a time.  `ThreadCall.apply` says what a call does to a thread when nothing comes between
its two commands.
-/

namespace AgentHub.Hub

open AgentHub.Json

/-! ### Records -/

inductive ThreadStatus where
  | opened
  | closed
  | archived
  deriving DecidableEq

def ThreadStatus.asStr : ThreadStatus → String
  | .opened => "open"
  | .closed => "closed"
  | .archived => "archived"

structure Thread where
  threadId : String
  createdBy : String
  createdAt : String
  members : List String
  repo : Option String
  topic : Option String
  status : ThreadStatus
  deriving DecidableEq

/-- The fields of a thread as the structure is written; absent ones are left out. -/
def Thread.fields (t : Thread) : Fields :=
  Fields.compact
    [("thread_id", some (.str t.threadId)),
     ("created_by", some (.str t.createdBy)),
     ("created_at", some (.str t.createdAt)),
     ("members", some (.arr (t.members.map .str))),
     ("repo", t.repo.map .str),
     ("topic", t.topic.map .str),
     ("status", some (.str t.status.asStr))]

/-- `serde_json::to_string` of a thread. -/
def Thread.text (t : Thread) : String := jsonText (.obj t.fields)

/-- `serde_json::from_str::<Thread>`, which reads back what `to_string` writes. -/
structure ThreadReader where
  fromStr : String → Option Thread
  fromStr_text : ∀ t : Thread, fromStr t.text = some t

/-! ### Calls -/

inductive ThreadCall where
  | create (thread : Thread)
  | join (threadId agent : String)
  | leave (threadId agent : String)
  | close (threadId : String)
  deriving DecidableEq

/-- The thread a call is about; its record is under the key `agent_bus:thread:<id>`. -/
def ThreadCall.threadId : ThreadCall → String
  | .create thread => thread.threadId
  | .join threadId _ => threadId
  | .leave threadId _ => threadId
  | .close threadId => threadId

inductive ThreadError where
  | getFailed
  | notFound
  | alreadyExists (threadId : String)
  | deserialize
  | setFailed
  deriving DecidableEq

def Thread.join (t : Thread) (agent : String) : Thread :=
  if agent ∈ t.members then t else { t with members := t.members ++ [agent] }

def Thread.leave (t : Thread) (agent : String) : Thread :=
  { t with members := t.members.filter (· ≠ agent) }

def Thread.close (t : Thread) : Thread := { t with status := .closed }

/-- The record `join_thread` and its like read with `GET`. -/
def ThreadReader.load (reader : ThreadReader) : Option String → Except ThreadError Thread
  | none => .error .notFound
  | some json =>
    match reader.fromStr json with
    | some thread => .ok thread
    | none => .error .deserialize

/-- The thread a call writes back, from the text it has read. -/
def ThreadCall.edit (reader : ThreadReader) (stored : Option String) :
    ThreadCall → Except ThreadError Thread
  | .create thread => if stored.isSome then .error (.alreadyExists thread.threadId) else .ok thread
  | .join _ agent => (reader.load stored).map (·.join agent)
  | .leave _ agent => (reader.load stored).map (·.leave agent)
  | .close _ => (reader.load stored).map Thread.close

/-! ### The machine -/

/-- A call between its `GET` and its `SET`. -/
structure PendingSet where
  call : ThreadCall
  /-- What its `GET` answered. -/
  read : Option String
  /-- What its `SET` writes. -/
  thread : Thread

structure ThreadBus where
  stored : String → Option String
  pending : Nat → Option PendingSet

inductive ThreadInput where
  /-- A client that is not in a call begins one; its `GET` is carried out, or fails. -/
  | get (client : Nat) (call : ThreadCall) (ok : Bool)
  /-- The `SET` of the client's call is carried out, or fails. -/
  | set (client : Nat) (ok : Bool)

/-- A call that returns.  `create_thread` returns nothing; the thread it was given stands there. -/
structure ThreadAnswer where
  client : Nat
  call : ThreadCall
  result : Except ThreadError Thread

/-- A call whose `GET` has answered. -/
def ThreadBus.got (bus : ThreadBus) (reader : ThreadReader) (client : Nat) (call : ThreadCall) :
    ThreadBus × List ThreadAnswer :=
  let stored := bus.stored call.threadId
  match call.edit reader stored with
  | .ok thread =>
    ({ bus with pending := Function.update bus.pending client (some ⟨call, stored, thread⟩) }, [])
  | .error e => (bus, [⟨client, call, .error e⟩])

/-- A call whose `SET` has answered. -/
def ThreadBus.written (bus : ThreadBus) (client : Nat) (p : PendingSet) :
    ThreadBus × List ThreadAnswer :=
  ({ stored := Function.update bus.stored p.call.threadId (some p.thread.text)
     pending := Function.update bus.pending client none }, [⟨client, p.call, .ok p.thread⟩])

def ThreadBus.step (reader : ThreadReader) (bus : ThreadBus) :
    ThreadInput → ThreadBus × List ThreadAnswer
  | .get client call ok =>
    match bus.pending client with
    | some _ => (bus, [])
    | none =>
      if ok then bus.got reader client call else (bus, [⟨client, call, .error .getFailed⟩])
  | .set client ok =>
    match bus.pending client with
    | none => (bus, [])
    | some p =>
      if ok then bus.written client p
      else ({ bus with pending := Function.update bus.pending client none },
        [⟨client, p.call, .error .setFailed⟩])

/-- The calls of all clients. -/
def threadBus (reader : ThreadReader) : Machine ThreadBus ThreadInput ThreadAnswer :=
  ⟨ThreadBus.step reader⟩

/-- A store that holds the given threads, with no call under way. -/
def ThreadBus.holding (threads : String → Option Thread) : ThreadBus where
  stored threadId := (threads threadId).map Thread.text
  pending _ := none

/-! ### Calls without interruption -/

/-- The thread a call other than `create_thread` needs. -/
def existing : Option Thread → Except ThreadError Thread
  | none => .error .notFound
  | some thread => .ok thread

/-- What a call makes of the thread as a whole. -/
def ThreadCall.apply (thread : Option Thread) : ThreadCall → Except ThreadError Thread
  | .create new =>
    match thread with
    | none => .ok new
    | some _ => .error (.alreadyExists new.threadId)
  | .join _ agent => (existing thread).map (·.join agent)
  | .leave _ agent => (existing thread).map (·.leave agent)
  | .close _ => (existing thread).map Thread.close

/-- Calls one after the other, all of which succeed. -/
def serialRun (thread : Option Thread) (calls : List ThreadCall) :
    Except ThreadError (Option Thread) :=
  calls.foldlM (fun thread call => (call.apply thread).map some) thread

/-- The calls about a thread that have returned `Ok`. -/
def okCalls (threadId : String) (answers : List ThreadAnswer) : List ThreadCall :=
  answers.filterMap fun a =>
    match a.result with
    | .ok _ => if a.call.threadId = threadId then some a.call else none
    | .error _ => none

end AgentHub.Hub
