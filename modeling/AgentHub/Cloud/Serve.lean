import AgentHub.Cloud.Store

/-!
# The writing routes of the Worker

Each route is a program: it checks what it was sent, binds the actors to the token, and calls the
store, every call by itself.  `serveAlone` runs a request from its beginning to its end;
`workers` lets the calls of any number of requests, and the alarm, come in any order.

The body of a request is the document it was parsed as, the empty object where it was none.  How an
error is classed for its status is left out, and so are the limit of the rate and the routes of the
claims, which write nothing.
-/

namespace AgentHub.Cloud

open AgentHub.Json BusLog Program

structure Env extends Worker where
  cloudIdentity : String
  /-- What a column of texts keeps of a value that is no string; `none` is refused. -/
  columnText : Value → Option String

/-- What serves a request: programs that call the store. -/
abbrev Handling (α : Type) := Program Call Call.Reply String α

variable (env : Env) (identity : Identity) (draws : Nat → Moment)

/-! ### Reading a request -/

/-- `null` has no properties. -/
def properties : Value → Checked Value
  | .null => .error "Cannot read properties of null"
  | body => .ok body

/-- `bindAgent` of a property of the body. -/
def bindAgentProperty (requested : Option Value) (fieldName : String) : Checked String :=
  match Js.given requested with
  | none => bindAgent identity "" fieldName
  | some (.str s) => bindAgent identity s fieldName
  | some _ => .error "requested?.trim is not a function"

def requireHubIdentity : Checked String :=
  match identity.role, identity.hub with
  | .hub, some hub => .ok hub
  | .hub, none => .error "hub-role token is missing its hub identity"
  | _, _ => .error "this route requires role hub"

/-- `Math.min(Math.max(n, least), most)`; an integer that is not written as one is beyond 10^21. -/
def clampInt (least most : Nat) : Value → Nat
  | .int n => (max (least : Int) (min n most)).toNat
  | v => if Js.isNegative v then least else most

/-- `coerceOptionalInt` with both bounds. -/
def coerceBoundedInt (value : Option Value) (name : String) (least most : Nat) :
    Checked (Option Nat) :=
  match Js.given value with
  | none => .ok none
  | some v => do
    require (Js.isInteger v) s!"{name} must be an integer"
    return some (clampInt least most v)

/-- The text a column keeps of a value. -/
def columnValue : Value → Checked String
  | .str s => .ok s
  | v =>
    match env.columnText v with
    | some s => .ok s
    | none => .error "internal error"

/-! ### Posts -/

/-- `POST /messages`. -/
def Route.messages (body : Value) : Handling Value := do
  let input ← check (buildValidatedMessage body identity env.cloudIdentity (draws 0))
  let stored ← perform (Call.insertMessage input)
  return rowToMessage stored.message

/-- The items of a batch; a string has a length too, but no `map`. -/
def batchItems (messages : Option Value) : Checked (List Value) := do
  let (items, length) ←
    match messageList messages with
    | some list => Except.ok list
    | none => .error "messages.map is not a function"
  require (length ≠ 0) "messages array must not be empty"
  require (length ≤ 100) "batch size limit is 100 messages"
  match Js.given messages with
  | some (.str _) => .error "messages.map is not a function"
  | _ => return items

/-- Every item is validated before any is written. -/
def buildBatch : Nat → List Value → Checked (List InsertMessageInput)
  | _, [] => .ok []
  | i, item :: items => do
    let input ← (buildValidatedMessage item identity env.cloudIdentity (draws i)).mapError
      fun message => s!"item {i}: {message}"
    let inputs ← buildBatch (i + 1) items
    return input :: inputs

/-- The inputs of `POST /messages/batch`. -/
def batchInputs (body : Value) : Checked (List InsertMessageInput) := do
  let body ← properties body
  let items ← batchItems (body.field? "messages")
  buildBatch env identity draws 0 items

/-- `POST /messages/batch`. -/
def Route.messagesBatch (body : Value) : Handling Value := do
  let inputs ← check (batchInputs env identity draws body)
  let results ← perform (Call.insertMessageBatch inputs)
  let ids := results.map fun stored => Value.str stored.message.id
  return .obj [("ids", .arr ids), ("count", .int ids.length)]

/-! ### Acknowledgements -/

/-- The body of an acknowledgement.  One that no column takes fails the first insertion, and nothing
is written before it. -/
def ackText (body : Option Value) : Checked String := do
  let ackBody := (Js.given body).getD (.str "ack")
  assertNoPhi [some (Js.toText ackBody)]
  columnValue env ackBody

/-- The message that acknowledges another. -/
def ackInput (agent ackBody : String) (messageId : Value) (replyTo : Option String)
    (moment : Moment) : Checked InsertMessageInput := do
  let originHub ← bindOriginHubForDirectWrite identity none env.cloudIdentity
  return {
    id := moment.uuidv7 0
    timestampUtc := formatTimestampUtc moment.now
    protocolVersion
    fromAgent := agent
    toAgent := "all"
    topic := "ack"
    body := ackBody
    threadId := none
    tags := []
    priority := "normal"
    requestAck := false
    replyTo
    metadata := .obj [("ack_for", messageId)]
    clientMsgId := none
    originHost := none
    originSeq := none
    originHub := some originHub
    hlc := none
    sensitivity := none }

/-- The text of a message id, `none` for `null`, which is the id of no message. -/
def idText : Value → Checked (Option String)
  | .null => .ok none
  | v => (columnValue env v).map some

/-- Only the recipient of a message acknowledges it; nothing is asked of a message that is not
found. -/
def mayAck (agent : String) (recipient : Option String) : Bool :=
  recipient.all fun r => r = agent || r = "all"

/-- The look-ups that come before the acknowledgements of an agent. -/
def authorizeAcks (agent : String) : List Value → Handling Unit
  | [] => return ()
  | v :: vs => do
    let id ← check (idText env v)
    let recipient ← perform (Call.getMessageRecipient id)
    check (require (mayAck agent recipient)
      s!"ack rejected: '{agent}' is not the recipient of message '{Js.toText v}'")
    authorizeAcks agent vs

/-- A hub and an operator vouch for any agent. -/
def authorize (agent : String) (ids : List Value) : Handling Unit :=
  if identity.role = .agent then authorizeAcks env agent ids else return ()

/-- `POST /messages/:id/ack`. -/
def Route.ack (id : String) (body : Value) : Handling Value := do
  let messageId := Js.trim id
  let body ← check (properties body)
  let agent ← check (bindAgentProperty identity (body.field? "agent") "agent")
  check (require (!messageId.isEmpty) "message id must not be empty")
  let ackBody ← check (ackText env (body.field? "body"))
  authorize env identity agent [.str messageId]
  let input ← check (ackInput env identity agent ackBody (.str messageId) (some messageId)
    (draws 0))
  let ack ← perform (Call.insertMessage input)
  perform (Call.clearPendingAck (some messageId))
  return .obj
    [("ack_sent", .bool true),
     ("ack_message_id", .str ack.message.id),
     ("acked_message_id", .str messageId),
     ("timestamp", .str ack.message.timestampUtc)]

/-- The acknowledgements of a batch, one after the other. -/
def ackEach (agent ackBody : String) : Nat → List Value → Handling Unit
  | _, [] => return ()
  | i, v :: vs => do
    let id ← check (idText env v)
    let input ← check (ackInput env identity agent ackBody v id (draws i))
    let _ ← perform (Call.insertMessage input)
    perform (Call.clearPendingAck id)
    ackEach agent ackBody (i + 1) vs

/-- The ids of a batch of acknowledgements. -/
def ackIds (messageIds : Option Value) : Checked (List Value) := do
  let (ids, length) ←
    match messageList messageIds with
    | some list => Except.ok list
    | none => .error "ids is not iterable"
  require (length ≠ 0) "message_ids must not be empty"
  require (length ≤ 100) "batch ack limit is 100 message IDs"
  return ids

/-- `POST /ack/batch`: every id is authorized before any is acknowledged. -/
def Route.ackBatch (body : Value) : Handling Value := do
  let body ← check (properties body)
  let agent ← check (bindAgentProperty identity (body.field? "agent") "agent")
  let ids ← check (ackIds (body.field? "message_ids"))
  let ackBody ← check (ackText env (body.field? "body"))
  authorize env identity agent ids
  ackEach env identity draws agent ackBody 0 ids
  return .obj [("acked", .int ids.length), ("message_ids", .arr ids)]

/-! ### Knocks -/

def knockInput (body : Value) : Checked InsertMessageInput := do
  let sender ← bindAgentProperty identity (body.field? "sender") "sender"
  let recipient ← requiredString (body.field? "recipient") "recipient" maxRecipientLen
  let knockBody ←
    requiredString (some ((Js.given (body.field? "body")).getD (.str "check the bus"))) "body"
      maxBodyLen
  let threadId ← validateOptionalString (body.field? "thread_id") "thread_id" maxThreadIdLen
  let tags ← validateTags (body.field? "tags")
  assertNoPhi [some knockBody, some recipient, threadId]
  let requestAck := Js.truthy (some ((Js.given (body.field? "request_ack")).getD (.bool true)))
  let originHub ← bindOriginHubForDirectWrite identity none env.cloudIdentity
  return {
    id := (draws 0).uuidv7 0
    timestampUtc := formatTimestampUtc (draws 0).now
    protocolVersion
    fromAgent := sender
    toAgent := recipient
    topic := "knock"
    body := knockBody
    threadId
    tags
    priority := "urgent"
    requestAck
    replyTo := none
    metadata := .obj
      [("knock", .bool true), ("delivery_hint", .str "sse"),
       ("expected_response_kind", .str (if requestAck then "ack" else "status"))]
    clientMsgId := none
    originHost := none
    originSeq := none
    originHub := some originHub
    hlc := none
    sensitivity := none }

/-- `POST /knock`. -/
def Route.knock (body : Value) : Handling Value := do
  let body ← check (properties body)
  let input ← check (knockInput env identity draws body)
  let stored ← perform (Call.insertMessage input)
  return rowToMessage stored.message

/-! ### Presence -/

def maxStatusLen : Nat := 64

def maxSessionIdLen : Nat := 256

def validNetworkContexts : List String := ["lab-p2p", "lab-lan", "offsite", "offline"]

structure CorePresenceFields where
  status : String
  sessionId : String
  capabilities : List String
  metadata : Value
  networkContext : Option String

def validateNetworkContext (value : Option Value) : Checked (Option String) :=
  match Js.given value with
  | none => .ok none
  | some (.str s) => do
    require (validNetworkContexts.contains s)
      (s!"invalid network_context '{s}'; must be one of: " ++ Text.join ", " validNetworkContexts)
    return some s
  | some _ => .error "network_context must be a string"

def validatePresenceCore (req : Value) : Checked CorePresenceFields := do
  let status ← validateOptionalString (req.field? "status") "status" maxStatusLen
  let status := status.getD "online"
  let sessionId ← validateOptionalString (req.field? "session_id") "session_id" maxSessionIdLen
  let sessionId := sessionId.getD ""
  let capabilities ←
    validateStringArray (req.field? "capabilities") "capabilities" maxTagsCount maxTagLen
  let metadataBytes ← validateMetadataSize (req.field? "metadata")
  validateTotalSize ([status, sessionId] ++ capabilities) metadataBytes
  let networkContext ← validateNetworkContext (req.field? "network_context")
  assertNoPhi [some status, (req.field? "metadata").map Js.stringify]
  return {
    status, sessionId, capabilities, networkContext
    metadata := (Js.given (req.field? "metadata")).getD (.obj []) }

/-- The origin in the key of a presence row, and the hub that relays it. -/
def presenceOrigin : String × Option String :=
  match identity.role, identity.hub with
  | .hub, some hub => (hub, some hub)
  | _, _ => (identity.host.getD "unknown-host", none)

/-- The presence `PUT /presence/:agent` sets. -/
def presenceInput (agentParam : String) (body : Value) : Checked Presence := do
  let agent ← bindAgent identity (Js.trim agentParam) "agent"
  let body ← properties body
  let core ← validatePresenceCore body
  let ttl ← coerceBoundedInt (body.field? "ttl_seconds") "ttl_seconds" 1 86400
  return {
    agent
    status := core.status
    protocolVersion
    timestampUtc := formatTimestampUtc (draws 0).now
    sessionId := core.sessionId
    capabilities := core.capabilities
    metadata := core.metadata
    ttlSeconds := ttl.getD 180
    networkContext := core.networkContext }

/-- `PUT /presence/:agent`. -/
def Route.presence (agentParam : String) (body : Value) : Handling Value := do
  let input ← check (presenceInput identity draws agentParam body)
  let origin := presenceOrigin identity
  perform (Call.setPresence input origin.1 origin.2)

/-! ### Hubs -/

/-- What a request of a hub says about itself. -/
def checkOriginHub (body : Value) (originHub : String) : Checked Unit :=
  require (!(Js.truthy (body.field? "origin_hub")) ||
      body.field? "origin_hub" = some (.str originHub))
    s!"origin_hub does not match the bearer token's hub '{originHub}'"

/-- The elements of a batch of a hub.  The error path itself reads a property of an element. -/
def hubItems (items : Option Value) (what : String) : Checked (List Value) := do
  let (items, length) ←
    match messageList items with
    | some list => Except.ok list
    | none => .error "items is not iterable"
  require (length ≤ 500) s!"{what} batch limit is 500"
  require (!items.contains .null) "Cannot read properties of null"
  return items

/-- `POST /sync/push`. -/
def Route.syncPush (body : Value) : Handling Value := do
  let originHub ← check (requireHubIdentity identity)
  let body ← check (properties body)
  check (checkOriginHub body originHub)
  let messages ← check (hubItems (body.field? "messages") "sync push")
  let built := buildItems env.toWorker (draws 0) 0 messages
  let result ← perform (Call.syncPush originHub (built.filterMap fun x => x.2.toOption))
  return pushAnswer (built.filterMap preRejection) result

/-- An event of a push, as far as it is well formed. -/
def buildPresenceEvent (ev : Value) : Checked PresenceEvent := do
  let originId ←
    match ev.field? "origin_id" with
    | some v => if Js.isInteger v then Except.ok v else .error "origin_id must be an integer"
    | none => .error "origin_id must be an integer"
  let agent ← requiredString (ev.field? "agent") "agent" maxSenderLen
  let core ← validatePresenceCore ev
  let timestampUtc ← syncItemTimestamp env.toWorker (ev.field? "timestamp_utc") (draws 0).now
  let protocolVersion ← syncItemVersion (ev.field? "protocol_version")
  let ttlSeconds ← coerceBoundedInt (ev.field? "ttl_seconds") "ttl_seconds" 1 86400
  return {
    originId, timestampUtc, protocolVersion, agent, ttlSeconds
    status := core.status
    sessionId := some core.sessionId |>.filter fun s => !s.isEmpty
    capabilities := core.capabilities
    metadata := core.metadata }

def eventRejection (ev : Value) : Checked PresenceEvent → Option (Value × String)
  | .ok _ => none
  | .error reason => some ((Js.given (ev.field? "origin_id")).getD (.int (-1)), reason)

def rejectedEvent (x : Value × String) : Value :=
  .obj [("origin_id", x.1), ("reason", .str x.2)]

/-- `POST /sync/push-presence`. -/
def Route.syncPushPresence (body : Value) : Handling Value := do
  let originHub ← check (requireHubIdentity identity)
  let body ← check (properties body)
  check (checkOriginHub body originHub)
  let events ← check (hubItems (body.field? "events") "sync push-presence")
  let built := events.map fun ev => (ev, buildPresenceEvent env draws ev)
  let result ← perform (Call.syncPushPresence originHub (built.filterMap fun x => x.2.toOption))
  let rejected := built.filterMap (fun x => eventRejection x.1 x.2) ++ result.rejected
  return .obj
    [("accepted", .int result.accepted),
     ("duplicates", .int result.duplicates),
     ("rejected", .arr (rejected.map rejectedEvent))]

/-! ### Requests -/

/-- A request to a route that writes. -/
inductive Request where
  | messages (body : Value)
  | messagesBatch (body : Value)
  | ack (id : String) (body : Value)
  | ackBatch (body : Value)
  | knock (body : Value)
  | presence (agentParam : String) (body : Value)
  | syncPush (body : Value)
  | syncPushPresence (body : Value)
  /-- A document that is sent to `/mcp`. -/
  | mcp (raw : Value)

/-! ### MCP -/

/-- What an argument of a tool must be. -/
inductive Rule where
  | string
  | oneOf (values : List String)
  | strings
  | boolean
  | object
  | integer (minimum maximum : Int)

def isString : Value → Bool
  | .str _ => true
  | _ => false

/-- `matches`. -/
def Rule.accepts : Rule → Value → Bool
  | .string, .str _ => true
  | .oneOf values, .str s => values.contains s
  | .strings, .arr items => items.all isString
  | .boolean, .bool _ => true
  | .object, .obj _ => true
  | .integer minimum maximum, .int n => decide (minimum ≤ n) && decide (n ≤ maximum)
  | _, _ => false

structure Tool where
  name : String
  properties : List (String × Rule)
  required : List String

/-- The tools that write. -/
def mcpTools : List Tool :=
  [{ name := "post_message"
     properties :=
       [("sender", .string), ("recipient", .string), ("topic", .string), ("body", .string),
        ("tags", .strings), ("thread_id", .string),
        ("priority", .oneOf ["low", "normal", "high", "urgent"]), ("request_ack", .boolean),
        ("reply_to", .string), ("metadata", .object),
        ("schema", .oneOf ["finding", "status", "benchmark"])]
     required := ["sender", "recipient", "topic", "body"] },
   { name := "ack_message"
     properties := [("agent", .string), ("message_id", .string), ("body", .string)]
     required := ["agent", "message_id"] },
   { name := "set_presence"
     properties :=
       [("agent", .string), ("status", .string), ("session_id", .string),
        ("capabilities", .strings), ("ttl_seconds", .integer 1 86400), ("metadata", .object)]
     required := ["agent"] },
   { name := "knock_agent"
     properties :=
       [("sender", .string), ("recipient", .string), ("body", .string), ("thread_id", .string),
        ("tags", .strings), ("request_ack", .boolean)]
     required := ["sender", "recipient"] }]

def validArguments (args : Fields) (tool : Tool) : Bool :=
  (tool.required.all fun key => (args.lookup key).isSome) &&
    args.all fun kv => (tool.properties.lookup kv.1).any fun rule => rule.accepts kv.2

/-- A segment of a path that a URL keeps. -/
def isSegment (s : String) : Bool := s ≠ "" && s ≠ "." && s ≠ ".."

/-- `restCall`.  The body is written and parsed again, which orders its properties. -/
def restCall (name : String) (args : Fields) : Option Request :=
  let text (key : String) : String :=
    match args.lookup key with
    | some (.str s) => s
    | _ => ""
  match name with
  | "post_message" => some (.messages (Js.ordered (.obj args)))
  | "ack_message" =>
    let body := (Js.given (args.lookup "body")).getD (.str "ack")
    if isSegment (text "message_id") then
      some (.ack (text "message_id") (.obj [("agent", .str (text "agent")), ("body", body)]))
    else none
  | "set_presence" =>
    let status := (Js.given (args.lookup "status")).getD (.str "online")
    if isSegment (text "agent") then
      some (.presence (text "agent")
        (Js.ordered (.obj (Js.setProperty args "status" status))))
    else none
  | "knock_agent" => some (.knock (Js.ordered (.obj args)))
  | _ => none

/-- An id with which a call is answered; a call without one is not carried out. -/
def isRpcId : Value → Bool
  | .str _ => true
  | .int n => decide (n.natAbs < 2 ^ 53)
  | _ => false

/-- The request `handleMcp` dispatches with the token of its caller, if it dispatches one to a route
that writes. -/
def mcpRequest (raw : Value) : Option Request :=
  match raw.field? "jsonrpc", raw.field? "method", raw.field? "id", raw.field? "params" with
  | some (.str "2.0"), some (.str "tools/call"), some id, some (.obj params) =>
    if isRpcId id then
      match params.lookup "name", (Js.given (params.lookup "arguments")).getD (.obj []) with
      | some (.str name), .obj args =>
        match mcpTools.find? fun tool => tool.name = name with
        | some tool => if validArguments args tool then restCall name args else none
        | none => none
      | _, _ => none
    else none
  | _, _, _, _ => none

/-- What serves a request to a route itself. -/
def Request.route : Request → Handling Value
  | .messages body => Route.messages env identity draws body
  | .messagesBatch body => Route.messagesBatch env identity draws body
  | .ack id body => Route.ack env identity draws id body
  | .ackBatch body => Route.ackBatch env identity draws body
  | .knock body => Route.knock env identity draws body
  | .presence agentParam body => Route.presence identity draws agentParam body
  | .syncPush body => Route.syncPush env identity draws body
  | .syncPushPresence body => Route.syncPushPresence env identity draws body
  | .mcp _ => fail "no route"

/-- The request that reaches a route: that of a tool in place of its call. -/
def Request.target : Request → Option Request
  | .mcp raw => mcpRequest raw
  | request => some request

/-- What serves a request.  The envelope `/mcp` puts around an answer is left out. -/
def Request.handle (request : Request) : Handling Value :=
  match request.target with
  | some target => target.route env identity draws
  | none => fail "no writing tool"

/-- One request with nothing between its calls. -/
def serveAlone (request : Request) (visits : Nat → Visit) (store : Store) :
    Store × Except String Value :=
  (request.handle env identity draws).run (Store.serve env.toWorker) "internal error" visits store

/-! ### Interleavings -/

/-- A request that has come in, with the token's identity and what it draws on its way. -/
structure Arrival where
  identity : Identity
  request : Request
  draws : Nat → Moment

/-- The Worker: requests whose calls interleave, and the alarm, with its cutoff. -/
def workers : Pool.Runtime Call Call.Reply String Value Arrival Store Visit String where
  route arrival := arrival.request.handle env arrival.identity arrival.draws
  serve := Store.serve env.toWorker
  lost := "internal error"
  outside cutoffIso store := store.alarm cutoffIso

end AgentHub.Cloud
