import AgentHub.Hub.Redis
import AgentHub.Machine
import AgentHub.Sync.Message

/-!
# Task queues

Each agent has a queue of tasks under a key of its own.  Pushing puts a text behind the others and
renews the lifetime of the queue, with two commands on one connection that those of others may come
between; pulling takes the first.  A card is pushed as its JSON, and what is pulled as a card and is
none is wrapped in one.
-/

namespace AgentHub.Tasks

open AgentHub.Json AgentHub.Validation AgentHub.Hub

/-! ### Cards -/

inductive TaskStatus where
  | pending
  | inProgress
  | completed
  | failed
  | cancelled
  deriving DecidableEq

def TaskStatus.asStr : TaskStatus → String
  | .pending => "pending"
  | .inProgress => "in_progress"
  | .completed => "completed"
  | .failed => "failed"
  | .cancelled => "cancelled"

def TaskStatus.parse : String → Option TaskStatus
  | "pending" => some .pending
  | "in_progress" => some .inProgress
  | "completed" => some .completed
  | "failed" => some .failed
  | "cancelled" => some .cancelled
  | _ => none

/-- A variant without fields is its name, or an object of the name and a null. -/
def readStatus : Value → Option TaskStatus
  | .str name => TaskStatus.parse name
  | .obj [(name, .null)] => TaskStatus.parse name
  | _ => none

structure TaskCard where
  id : String
  repo : Option String
  paths : List String
  priority : String
  dependsOn : List String
  replyTo : Option String
  tags : List String
  status : TaskStatus
  body : String
  createdBy : String
  createdAt : String
  deriving DecidableEq

/-- The fields in the order they are written. -/
def TaskCard.slots (card : TaskCard) : List (String × Option Value) :=
  [("id", some (.str card.id)),
   ("repo", card.repo.map .str),
   ("paths", some (.arr (card.paths.map .str))),
   ("priority", some (.str card.priority)),
   ("depends_on", some (.arr (card.dependsOn.map .str))),
   ("reply_to", card.replyTo.map .str),
   ("tags", some (.arr (card.tags.map .str))),
   ("status", some (.str card.status.asStr)),
   ("body", some (.str card.body)),
   ("created_by", some (.str card.createdBy)),
   ("created_at", some (.str card.createdAt))]

/-- `serde_json::to_string`. -/
def TaskCard.text (card : TaskCard) : String := jsonText (.obj (Fields.compact card.slots))

def taskCardKeys : List String :=
  ["id", "repo", "paths", "priority", "depends_on", "reply_to", "tags", "status", "body",
    "created_by", "created_at"]

/-- The fields of an object; one that stands twice is an error. -/
def TaskCard.ofFields (fields : Fields) : Option TaskCard := do
  let text (name : String) : Option String := (Fields.get fields name).bind Value.asStr
  guard ((fields.map Prod.fst).filter taskCardKeys.contains).Nodup
  let id ← text "id"
  let repo ← Sync.readOption Value.asStr (Fields.get fields "repo")
  let paths ← Sync.readDefault Sync.readTexts [] (Fields.get fields "paths")
  let priority ← text "priority"
  let dependsOn ← Sync.readDefault Sync.readTexts [] (Fields.get fields "depends_on")
  let replyTo ← Sync.readOption Value.asStr (Fields.get fields "reply_to")
  let tags ← Sync.readDefault Sync.readTexts [] (Fields.get fields "tags")
  let status ← (Fields.get fields "status").bind readStatus
  let body ← text "body"
  let createdBy ← text "created_by"
  let createdAt ← text "created_at"
  return { id, repo, paths, priority, dependsOn, replyTo, tags, status, body, createdBy, createdAt }

/-- The fields as a list, in their order. -/
def TaskCard.ofItems : List Value → Option TaskCard
  | [id, repo, paths, priority, dependsOn, replyTo, tags, status, body, createdBy, createdAt] => do
    let id ← id.asStr
    let repo ← Sync.readOption Value.asStr (some repo)
    let paths ← Sync.readTexts paths
    let priority ← priority.asStr
    let dependsOn ← Sync.readTexts dependsOn
    let replyTo ← Sync.readOption Value.asStr (some replyTo)
    let tags ← Sync.readTexts tags
    let status ← readStatus status
    let body ← body.asStr
    let createdBy ← createdBy.asStr
    let createdAt ← createdAt.asStr
    return {
      id, repo, paths, priority, dependsOn, replyTo, tags, status, body, createdBy, createdAt }
  | _ => none

/-- `serde_json::from_str`. -/
def TaskCard.read (raw : String) : Option TaskCard :=
  match fromStr raw.toList with
  | .ok (.obj fields) => TaskCard.ofFields fields
  | .ok (.arr items) => TaskCard.ofItems items
  | _ => none

/-- `Uuid::new_v4` and `Utc::now`. -/
structure Stamp where
  id : String
  createdAt : String

def parseOrWrapTaskCard (stamp : Stamp) (raw : String) : TaskCard :=
  (TaskCard.read raw).getD {
    id := stamp.id
    repo := none
    paths := []
    priority := "normal"
    dependsOn := []
    replyTo := none
    tags := []
    status := .pending
    body := raw
    createdBy := ""
    createdAt := stamp.createdAt }

/-! ### Queues -/

/-- A push whose second command is still to be made: what it pushes, with the card that
`push_task_card` answers, and what the first command answered. -/
structure Underway where
  key : String
  text : String
  card : Option TaskCard
  length : Option Nat

/-- Times are milliseconds. -/
structure QueueStore where
  queues : String → Option (Expiring (List String)) := fun _ => none
  clock : Nat := 0
  underway : List Underway := []

/-- What a push answers: the length of the queue, or the card. -/
inductive PushReply where
  | length (n : Nat)
  | card (card : TaskCard)

/-- What a pull answers for a text: the text as it is, or read as a card. -/
inductive PullReply where
  | task (text : String)
  | card (card : TaskCard)

/-- What is observed: a text is put in at the end of a queue of that length, a push is answered, a text
is taken out with what is answered for it unless the answer is lost, a pull finds nothing, a call fails,
a lifetime is renewed, a queue whose lifetime has ended is dropped. -/
inductive Event where
  | stored (key text : String) (length : Nat)
  | pushed (key text : String) (reply : PushReply)
  | taken (key text : String) (reply : Option PullReply)
  | empty (key : String)
  | failed (error : AgentBusError)
  | renewed (key : String) (now : Nat)
  | dropped (key : String) (texts : List String) (now : Nat)

def taskQueuePrefix : String := "bus:tasks:"

def taskQueueKey (agent : String) : String := taskQueuePrefix ++ agent

def taskQueueTtlSecs : Nat := 259200

namespace QueueStore

def setKey (s : QueueStore) (key : String) (slot : Option (Expiring (List String))) : QueueStore :=
  { s with queues := Function.update s.queues key slot }

/-- What is in a queue, expired or not. -/
def held (s : QueueStore) (key : String) : List String := ((s.queues key).map Expiring.value).getD []

/-- Before a command on a key the server drops what has expired under it. -/
def access (s : QueueStore) (key : String) : QueueStore × List Event :=
  if (readKey (s.queues key) s.clock).isNone ∧ (s.queues key).isSome then
    (s.setKey key none, [.dropped key (s.held key) s.clock])
  else (s, [])

/-- `RPUSH`, which keeps the lifetime of a queue that is there and answers the length. -/
def rpush (s : QueueStore) (key text : String) : QueueStore × Nat × List Event :=
  let (s, events) := s.access key
  let texts := s.held key ++ [text]
  (s.setKey key (some ⟨texts, (s.queues key).bind Expiring.deadline⟩), texts.length,
    events ++ [.stored key text texts.length])

/-- `EXPIRE`, which does nothing where there is no queue. -/
def expire (s : QueueStore) (key : String) : QueueStore × List Event :=
  let (s, events) := s.access key
  match s.queues key with
  | none => (s, events)
  | some slot =>
    (s.setKey key (some ⟨slot.value, some (s.clock + taskQueueTtlSecs * 1000)⟩),
      events ++ [.renewed key s.clock])

/-- `LPOP`, which leaves no empty queue. -/
def lpop (s : QueueStore) (key : String) : QueueStore × Option String :=
  match s.queues key with
  | some ⟨text :: texts, deadline⟩ =>
    (s.setKey key (if texts = [] then none else some ⟨texts, deadline⟩), some text)
  | _ => (s, none)

/-- `LRANGE key 0 end`, where zero stands for all. -/
def lrange (s : QueueStore) (key : String) (limit : Nat) : List String :=
  let texts := (readKey (s.queues key) s.clock).getD []
  if limit = 0 then texts else texts.take limit

def wait (s : QueueStore) (delay : Nat) : QueueStore := { s with clock := s.clock + delay }

end QueueStore

/-! ### Operations -/

/-- What becomes of a command. -/
inductive Fate where
  | served
  /-- The server answers that it does not carry it out. -/
  | refused
  /-- It is carried out, and the connection fails before its answer. -/
  | lost
  /-- The connection fails before it, and before what would follow. -/
  | unreached

/-- The server carries the command out. -/
def Fate.executed : Fate → Bool
  | .served | .lost => true
  | .refused | .unreached => false

structure PushTaskRequest where
  agent : String
  task : String

structure PushTaskCardRequest where
  agent : String
  body : String
  createdBy : String
  priority : String
  repo : Option String
  paths : List String
  dependsOn : List String
  replyTo : Option String
  tags : List String

def validTaskPriorities : List String := ["normal", "high", "critical"]

def validateTaskPriority (priority : String) : Except AgentBusError Unit :=
  if validTaskPriorities.contains priority then .ok ()
  else
    let names := Text.join ", " validTaskPriorities
    .error (.internal s!"invalid task priority '{priority}'; must be one of: {names}")

/-- The agent and the card of a request. -/
def newCard (stamp : Stamp) (request : PushTaskCardRequest) :
    Except AgentBusError (String × TaskCard) := do
  let agent ← nonEmpty request.agent "agent"
  let body ← nonEmpty request.body "body"
  let createdBy ← nonEmpty request.createdBy "created_by"
  validateTaskPriority request.priority
  return (agent, {
    id := stamp.id
    repo := request.repo
    paths := request.paths
    priority := request.priority
    dependsOn := request.dependsOn
    replyTo := request.replyTo
    tags := request.tags
    status := .pending
    body
    createdBy
    createdAt := stamp.createdAt })

def checkTask (agent task : String) : Except AgentBusError Unit :=
  rejectNulInFields [(agent, "agent"), (task, "task")]

def pushFailed (error : String) : AgentBusError := .internal s!"RPUSH + EXPIRE task failed: {error}"

def pullFailed (error : String) : AgentBusError := .internal s!"LPOP task failed: {error}"

/-- `redis_bus::push_task` up to its first command, for a caller that answers the card if there is
one; `error` is what the library says of a command that fails. -/
def pushTask (s : QueueStore) (connection : Except AgentBusError Unit) (fate : Fate) (error : String)
    (card : Option TaskCard) (agent task : String) : QueueStore × List Event :=
  match checkTask agent task, connection with
  | .error e, _ | .ok (), .error e => (s, [.failed e])
  | .ok (), .ok () =>
    let key := taskQueueKey agent
    let (t, length, events) := s.rpush key task
    match fate with
    | .served => ({ t with underway := t.underway ++ [⟨key, task, card, some length⟩] }, events)
    | .lost => ({ t with underway := t.underway ++ [⟨key, task, card, none⟩] }, events)
    | .refused => ({ s with underway := s.underway ++ [⟨key, task, card, none⟩] }, [])
    | .unreached => (s, [.failed (pushFailed error)])

/-- The second command of a push, and what the push answers: an answer to both commands is needed. -/
def finishPush (s : QueueStore) (i : Nat) (fate : Fate) (error : String) :
    QueueStore × List Event :=
  match s.underway[i]? with
  | none => (s, [])
  | some push =>
    let rest : QueueStore := { s with underway := s.underway.eraseIdx i }
    let (t, events) := if fate.executed then rest.expire push.key else (rest, [])
    match push.length, fate with
    | some length, .served =>
      (t, events ++ [.pushed push.key push.text ((push.card.map .card).getD (.length length))])
    | _, _ => (t, events ++ [.failed (pushFailed error)])

/-- `push_task_card`. -/
def pushTaskCard (s : QueueStore) (connection : Except AgentBusError Unit) (fate : Fate)
    (error : String) (stamp : Stamp) (request : PushTaskCardRequest) : QueueStore × List Event :=
  match newCard stamp request with
  | .error e => (s, [.failed e])
  | .ok (agent, card) => pushTask s connection fate error (some card) agent card.text

/-- `redis_bus::pull_task`, for a caller that answers a text so read. -/
def pullTask (s : QueueStore) (connection : Except AgentBusError Unit) (fate : Fate) (error : String)
    (read : String → PullReply) (agent : String) : QueueStore × List Event :=
  let key := taskQueueKey agent
  match connection with
  | .error e => (s, [.failed e])
  | .ok () =>
    let (t, events) := s.access key
    let (t, text) := t.lpop key
    match fate with
    | .served =>
      (t, events ++ (text.elim [.empty key] fun text => [.taken key text (some (read text))]))
    | .lost => (t, events ++ text.toList.map (.taken key · none) ++ [.failed (pullFailed error)])
    | .refused | .unreached => (s, [.failed (pullFailed error)])

/-- `pull_task_card`. -/
def pullTaskCard (s : QueueStore) (connection : Except AgentBusError Unit) (fate : Fate)
    (error : String) (stamp : Stamp) (agent : String) : QueueStore × List Event :=
  pullTask s connection fate error (fun text => .card (parseOrWrapTaskCard stamp text)) agent

/-- `peek_tasks`. -/
def peekTasks (s : QueueStore) (agent : String) (limit : Nat) : List String :=
  s.lrange (taskQueueKey agent) limit

/-- `peek_task_cards`, with one stamp for each entry. -/
def peekTaskCards (s : QueueStore) (stamp : Nat → Stamp) (agent : String) (limit : Nat) :
    List TaskCard :=
  (peekTasks s agent limit).zipIdx.map fun x => parseOrWrapTaskCard (stamp x.2) x.1

/-- `task_queue_length`. -/
def taskQueueLength (s : QueueStore) (agent : String) : Nat :=
  (s.lrange (taskQueueKey agent) 0).length

/-! ### Runs -/

/-- A call, with how connecting goes. -/
inductive Call where
  | pushTask (connection : Except AgentBusError Unit) (fate : Fate) (error : String)
      (request : PushTaskRequest)
  | pushTaskCard (connection : Except AgentBusError Unit) (fate : Fate) (error : String)
      (stamp : Stamp) (request : PushTaskCardRequest)
  /-- The second command of a push under way. -/
  | finish (i : Nat) (fate : Fate) (error : String)
  | pullTask (connection : Except AgentBusError Unit) (fate : Fate) (error : String) (agent : String)
  | pullTaskCard (connection : Except AgentBusError Unit) (fate : Fate) (error : String)
      (stamp : Stamp) (agent : String)
  | wait (delay : Nat)

/-- The queues as the calls of all callers change them. -/
def machine : Machine QueueStore Call Event where
  step s
    | .pushTask connection fate error request =>
      pushTask s connection fate error none request.agent request.task
    | .pushTaskCard connection fate error stamp request =>
      pushTaskCard s connection fate error stamp request
    | .finish i fate error => finishPush s i fate error
    | .pullTask connection fate error agent => pullTask s connection fate error .task agent
    | .pullTaskCard connection fate error stamp agent =>
      pullTaskCard s connection fate error stamp agent
    | .wait delay => (s.wait delay, [])

end AgentHub.Tasks
