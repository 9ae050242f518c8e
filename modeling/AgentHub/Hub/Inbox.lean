import AgentHub.Hub.Message
import AgentHub.Machine
import AgentHub.Paging
import Mathlib.Data.List.Destutter
import Mathlib.Data.Prod.Lex

/-!
# The inbox

`check_inbox` reads an agent's notification stream from the cursor of a lane, page by page, until it
has enough matches or has scanned enough, and saves the cursor once at its end.  A lane is a
combination of filters; its cursor lives under a key made of them.

The `inbox` is a machine: entries are appended, a call begins, and each of its Redis commands is
carried out or fails.  A command that fails has no effect.  Nothing is trimmed and no key expires.
-/

namespace AgentHub.Hub

open AgentHub.Json

/-! ### Notifications -/

/-- The two numbers of a stream id.  A cursor is one, `0-0` before the first entry. -/
abbrev StreamId := Nat ×ₗ Nat

def StreamId.zero : StreamId := toLex (0, 0)

structure InboxEntry where
  id : StreamId
  fields : List (String × String)

/-- The library functions of the inbox. -/
structure InboxLibrary where
  /-- `serde_json::from_slice::<Message>`. -/
  readMessage : String → Option Message
  /-- SHA-256 of a text, in the URL-safe Base64 without padding. -/
  digest : String → String
  digest_injective : Function.Injective digest

/-- The message of a notification without a readable one. -/
def emptyMessage : Message where
  id := ""
  timestampUtc := ""
  protocolVersion := protocolVersion
  fromAgent := ""
  toAgent := ""
  topic := ""
  body := ""
  threadId := none
  tags := []
  priority := "normal"
  requestAck := false
  replyTo := none
  metadata := .obj []
  streamId := none
  clientMsgId := none
  originHub := none

/-- The message of `decode_notification_entry`.  Of fields with one name the last one counts. -/
def InboxEntry.message (lib : InboxLibrary) (e : InboxEntry) : Message :=
  ((e.fields.reverse.lookup "message").bind lib.readMessage).getD emptyMessage

/-! ### Lanes -/

structure MessageFilters where
  repo : Option String
  session : Option String
  tags : List String
  threadId : Option String
  topic : Option String

/-- `query_scope_tags`. -/
def queryScopeTags (repo session : Option String) (tags : List String) : List String :=
  let all := ((repo.filter (· ≠ "")).map ("repo:" ++ ·)).toList ++
    ((session.filter (· ≠ "")).map ("session:" ++ ·)).toList ++ tags.filter (· ≠ "")
  all.foldl (fun kept tag => if tag ∈ kept then kept else kept ++ [tag]) []

/-- The tags a message must carry, sorted and without duplicates. -/
def requiredTags (filters : MessageFilters) : List String :=
  (Text.sorted (queryScopeTags filters.repo filters.session filters.tags)).destutter (· ≠ ·)

def notificationCursorKey (agent : String) : String := "bus:notify_cursor:" ++ agent

def optionValue : Option String → Value
  | some s => .str s
  | none => .null

/-- `inbox_cursor_key`. -/
def inboxCursorKey (lib : InboxLibrary) (agent : String) (filters : MessageFilters) : String :=
  let tags := requiredTags filters
  if tags = [] ∧ filters.threadId = none ∧ filters.topic = none then notificationCursorKey agent
  else
    let identity := jsonText (.arr [.str agent, .arr (tags.map .str), optionValue filters.threadId,
      optionValue filters.topic])
    "bus:notify_filter_cursor:" ++ agent ++ ":v1:" ++ lib.digest identity

/-- `message_matches_filters`. -/
def messageMatchesFilters (m : Message) (agent fromAgent : Option String) (includeBroadcast : Bool)
    (topic threadId : Option String) (requiredTags : List String) : Bool :=
  fromAgent.all (m.fromAgent == ·) &&
    (agent.all fun filter => m.toAgent == filter || (includeBroadcast && m.toAgent == "all")) &&
    topic.all (m.topic == ·) && (threadId.all fun filter => m.threadId == some filter) &&
    requiredTags.all m.tags.contains

/-- The filter of a lane. -/
def laneMatches (agent : String) (filters : MessageFilters) (m : Message) : Bool :=
  messageMatchesFilters m (some agent) none true filters.topic filters.threadId
    (requiredTags filters)

/-! ### Reading -/

structure CheckInboxRequest where
  limit : Nat
  resetCursor : Bool
  filters : MessageFilters

structure CheckInboxResult where
  messages : List Message
  cursorWas : StreamId
  cursorNow : StreamId
  inboxCursorKey : String

def inboxPageSize : Nat := 256

def inboxScanLimit : Nat := 4096

/-- What a call has read: the cursor it started from, the one it has reached, its matches, and how
many entries it has looked at. -/
structure Scan where
  cursor : StreamId
  cursorNow : StreamId
  messages : List Message
  scanned : Nat

/-- The entries of a page up to the one that fills the limit. -/
def Scan.page (lib : InboxLibrary) (wanted : Message → Bool) (limit : Nat) :
    List InboxEntry → Scan → Scan
  | [], s => s
  | e :: es, s =>
    let s := { s with cursorNow := e.id, scanned := s.scanned + 1 }
    if wanted (e.message lib) then
      let s := { s with messages := s.messages ++ [e.message lib] }
      if s.messages.length = limit then s else Scan.page lib wanted limit es s
    else Scan.page lib wanted limit es s

/-- The condition of the loop over the pages. -/
def Scan.goesOn (limit : Nat) (s : Scan) : Bool :=
  decide (s.messages.length < limit ∧ s.scanned < inboxScanLimit)

def Scan.pageSize (s : Scan) : Nat := min inboxPageSize (inboxScanLimit - s.scanned)

/-! ### The machine -/

inductive CallPhase where
  | resetting
  | reading
  | paging (scan : Scan)
  | saving (scan : Scan)

structure InboxCall where
  request : CheckInboxRequest
  phase : CallPhase

structure InboxState where
  stream : List InboxEntry := []
  cursors : String → Option StreamId := fun _ => none
  call : Option InboxCall := none

inductive InboxInput where
  | append (entry : InboxEntry)
  | call (request : CheckInboxRequest)
  /-- The next Redis command of the call is carried out, or fails. -/
  | redis (ok : Bool)

inductive InboxOutput where
  /-- The cursor of a lane is set back before a read. -/
  | reset (request : CheckInboxRequest)
  | answered (request : CheckInboxRequest) (result : Option CheckInboxResult)

section Machine

variable (lib : InboxLibrary) (agent : String)

/-- The key of the lane a request reads. -/
def CheckInboxRequest.key (request : CheckInboxRequest) : String :=
  inboxCursorKey lib agent request.filters

def Scan.result (request : CheckInboxRequest) (s : Scan) : CheckInboxResult where
  messages := s.messages
  cursorWas := s.cursor
  cursorNow := s.cursorNow
  inboxCursorKey := request.key lib agent

/-- The end of the loop: a cursor that has moved is saved before the call returns. -/
def InboxState.finish (s : InboxState) (request : CheckInboxRequest) (scan : Scan) :
    InboxState × List InboxOutput :=
  if scan.cursorNow ≠ scan.cursor then ({ s with call := some ⟨request, .saving scan⟩ }, [])
  else ({ s with call := none }, [.answered request (some (scan.result lib agent request))])

/-- The loop goes on with another page, or ends. -/
def InboxState.loop (s : InboxState) (request : CheckInboxRequest) (scan : Scan) :
    InboxState × List InboxOutput :=
  if scan.goesOn request.limit then ({ s with call := some ⟨request, .paging scan⟩ }, [])
  else s.finish lib agent request scan

/-- A command of the call that is carried out. -/
def InboxState.command (s : InboxState) (call : InboxCall) : InboxState × List InboxOutput :=
  let request := call.request
  let key := request.key lib agent
  match call.phase with
  | .resetting =>
    ({ s with
        cursors := Function.update s.cursors key (some StreamId.zero)
        call := some ⟨request, .reading⟩ }, [.reset request])
  | .reading =>
    let cursor := (s.cursors key).getD StreamId.zero
    s.loop lib agent request ⟨cursor, cursor, [], 0⟩
  | .paging scan =>
    let page := Paging.page InboxEntry.id scan.cursorNow scan.pageSize s.stream
    let after := scan.page lib (laneMatches agent request.filters) request.limit page
    if page.length < scan.pageSize then s.finish lib agent request after
    else s.loop lib agent request after
  | .saving scan =>
    ({ s with
        cursors := Function.update s.cursors key (some scan.cursorNow)
        call := none }, [.answered request (some (scan.result lib agent request))])

def InboxState.step (s : InboxState) : InboxInput → InboxState × List InboxOutput
  | .append entry =>
    -- `XADD` gives ids that ascend from the last one
    if StreamId.zero < entry.id ∧ ∀ e ∈ s.stream, e.id < entry.id then
      ({ s with stream := s.stream ++ [entry] }, [])
    else (s, [])
  | .call request =>
    match s.call with
    | none =>
      ({ s with call := some ⟨request, if request.resetCursor then .resetting else .reading⟩ }, [])
    | some _ => (s, [])
  | .redis ok =>
    match s.call with
    | none => (s, [])
    | some call =>
      if ok then s.command lib agent call
      else ({ s with call := none }, [.answered call.request none])

/-- The calls of one agent, one after the other, while its stream grows. -/
def inbox : Machine InboxState InboxInput InboxOutput := ⟨InboxState.step lib agent⟩

end Machine

end AgentHub.Hub
