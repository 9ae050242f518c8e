import AgentHub.Cloud.Serve
import AgentHub.Uri.Router

/-!
# The MCP bridge of the Worker

A call of a tool becomes a request to the Worker's own REST surface: `restCall` writes its path, the
URL class reads it, the router finds the route, and the route reads its parameter, its query and its
body.
-/

namespace AgentHub.Cloud.Mcp

open AgentHub.Json AgentHub.Uri

/-! ### Tools -/

def window : Rule := .integer 1 10080

def limit : Rule := .integer 1 500

/-- `MCP_TOOLS`. -/
def tools : List Tool :=
  [{ name := "bus_health", properties := [], required := [] },
   { name := "post_message"
     properties :=
       [("sender", .string), ("recipient", .string), ("topic", .string), ("body", .string),
        ("tags", .strings), ("thread_id", .string),
        ("priority", .oneOf ["low", "normal", "high", "urgent"]), ("request_ack", .boolean),
        ("reply_to", .string), ("metadata", .object),
        ("schema", .oneOf ["finding", "status", "benchmark"])]
     required := ["sender", "recipient", "topic", "body"] },
   { name := "list_messages"
     properties :=
       [("agent", .string), ("sender", .string), ("topic", .string), ("repo", .string),
        ("session", .string), ("tag", .strings), ("thread_id", .string), ("since_minutes", window),
        ("limit", limit), ("include_broadcast", .boolean)]
     required := [] },
   { name := "ack_message"
     properties := [("agent", .string), ("message_id", .string), ("body", .string)]
     required := ["agent", "message_id"] },
   { name := "set_presence"
     properties :=
       [("agent", .string), ("status", .string), ("session_id", .string),
        ("capabilities", .strings), ("ttl_seconds", .integer 1 86400), ("metadata", .object)]
     required := ["agent"] },
   { name := "list_presence", properties := [], required := [] },
   { name := "list_presence_history"
     properties := [("agent", .string), ("since_minutes", window), ("limit", limit)]
     required := [] },
   { name := "knock_agent"
     properties :=
       [("sender", .string), ("recipient", .string), ("body", .string), ("thread_id", .string),
        ("tags", .strings), ("request_ack", .boolean)]
     required := ["sender", "recipient"] }]

/-! ### The call -/

structure RestCall where
  path : List Char
  method : String
  body : Option Value

/-- `append` of `restCall`: what is undefined is left out. -/
def appendValue (query : Params) (target : String) (value : Option Value) : Params :=
  match value with
  | none => query
  | some v => query.set target (Js.toText v)

/-- A property that is put into a path; `undefined` is a text too. -/
def pathText (args : Fields) (key : String) : List Char :=
  ((args.lookup key).elim "undefined" Js.toText).toList

/-- A property or the value that stands for it. -/
def orElse (args : Fields) (key : String) (otherwise : Value) : Option Value :=
  some ((Js.given (args.lookup key)).getD otherwise)

/-- The query of `list_presence_history`. -/
def historyQuery (args : Fields) : Params :=
  let query := appendValue [] "agent" (args.lookup "agent")
  let query := appendValue query "since" (orElse args "since_minutes" (.int 1440))
  appendValue query "limit" (orElse args "limit" (.int 50))

/-- The query of `list_messages`. -/
def messagesQuery (args : Fields) : Params :=
  let query := ["agent", "topic", "repo", "session", "thread_id"].foldl
    (fun query key => appendValue query key (args.lookup key)) []
  let query := appendValue query "from" (args.lookup "sender")
  let query := appendValue query "since" (orElse args "since_minutes" (.int 1440))
  let query := appendValue query "limit" (orElse args "limit" (.int 50))
  let query := appendValue query "broadcast" (orElse args "include_broadcast" (.bool true))
  let tags := ((Js.given (args.lookup "tag")).bind Value.asArray).getD []
  tags.foldl (fun query tag => query.append "tag" (Js.toText tag)) query

/-- `restCall`; none is its error. -/
def restCall (name : String) (args : Fields) : Option RestCall :=
  match name with
  | "bus_health" => some { path := "/health".toList, method := "GET", body := none }
  | "post_message" =>
    some { path := "/messages".toList, method := "POST", body := some (.obj args) }
  | "ack_message" =>
    some
      { path := "/messages/".toList ++ encodeURIComponent (pathText args "message_id") ++ "/ack".toList
        method := "POST"
        body := some (.obj (Fields.compact
          [("agent", args.lookup "agent"), ("body", orElse args "body" (.str "ack"))])) }
  | "set_presence" =>
    some
      { path := "/presence/".toList ++ encodeURIComponent (pathText args "agent")
        method := "PUT"
        body := some (.obj
          (Js.setProperty args "status" ((Js.given (args.lookup "status")).getD (.str "online")))) }
  | "list_presence" => some { path := "/presence".toList, method := "GET", body := none }
  | "knock_agent" => some { path := "/knock".toList, method := "POST", body := some (.obj args) }
  | "list_presence_history" =>
    some
      { path := "/presence/history?".toList ++ serialize (historyQuery args)
        method := "GET"
        body := none }
  | "list_messages" =>
    some
      { path := "/messages?".toList ++ serialize (messagesQuery args)
        method := "GET"
        body := none }
  | _ => none

/-- A request to the REST surface. -/
structure RestRequest where
  method : String
  url : Url
  authorization : String
  body : Option Value

/-- The request that is dispatched, with the bearer of the call.  Its body is written and parsed again,
which orders its properties. -/
def restRequest (authorization : Option String) (name : String) (args : Fields) :
    Option RestRequest := do
  let call ← restCall name args
  let url ← resolve call.path
  return {
    method := call.method
    url
    authorization := authorization.getD ""
    body := call.body.map Js.ordered }

/-! ### Routes -/

/-- What handles a request; the routes no tool is for are told by their patterns. -/
inductive Endpoint where
  | health
  | postMessage
  | listMessages
  | ack
  | setPresence
  | listPresence
  | presenceHistory
  | knock
  | other (pattern : String)
  deriving DecidableEq

/-- `DEFERRED_ROUTES`. -/
def deferredRoutes : List String :=
  ["/events", "/events/:agent_id", "/admin/control", "/admin/service", "/admin/service/control",
   "/channels/direct/:agent_id", "/channels/groups", "/channels/groups/:name/messages",
   "/channels/escalate", "/channels/summary", "/token-count", "/compact-context",
   "/session-summary", "/thread-summary", "/compact-thread", "/orchestrator-summary",
   "/tasks/:agent", "/subscriptions", "/subscriptions/:id", "/inventory", "/threads",
   "/threads/:id", "/threads/:id/join", "/threads/:id/leave", "/threads/:id/close",
   "/overdue-acks", "/dashboard", "/dashboard/data", "/support"]

/-- A route for one method. -/
def route (method pattern : String) (handler : Endpoint) : Route Endpoint :=
  { method := some method, pattern := parts pattern, handler }

def otherRoute (method pattern : String) : Route Endpoint := route method pattern (.other pattern)

/-- The routes of the Worker, in the order they are registered. -/
def routes : List (Route Endpoint) :=
  [route "GET" "/health" .health,
   route "POST" "/messages" .postMessage,
   route "GET" "/messages" .listMessages,
   otherRoute "POST" "/messages/batch",
   route "POST" "/messages/:id/ack" .ack,
   otherRoute "POST" "/read/batch",
   otherRoute "POST" "/ack/batch",
   route "POST" "/knock" .knock,
   route "PUT" "/presence/:agent" .setPresence,
   route "GET" "/presence" .listPresence,
   route "GET" "/presence/history" .presenceHistory,
   otherRoute "GET" "/notifications/:agent_id",
   otherRoute "GET" "/pending-acks",
   otherRoute "POST" "/channels/arbitrate/:resource",
   otherRoute "GET" "/channels/arbitrate/:resource",
   otherRoute "PUT" "/channels/arbitrate/:resource/resolve",
   otherRoute "POST" "/channels/arbitrate/:resource/renew",
   otherRoute "POST" "/channels/arbitrate/:resource/release",
   otherRoute "GET" "/resource-events/:resource_id",
   otherRoute "POST" "/sync/push",
   otherRoute "GET" "/sync/pull",
   otherRoute "POST" "/sync/push-presence",
   otherRoute "GET" "/sync/stats",
   otherRoute "GET" "/admin/tokens/manifest",
   { method := none, pattern := parts "/mcp", handler := .other "/mcp" }] ++
  deferredRoutes.map fun pattern => { method := none, pattern := parts pattern, handler := .other pattern }

/-! ### What a route reads -/

/-- The filters of `GET /messages`. -/
structure MessagesQuery where
  agent : Option String
  fromAgent : Option String
  since : Int
  limit : Int
  includeBroadcast : Bool
  topic : Option String
  threadId : Option String
  requiredTags : List String
  repo : Option String
  session : Option String
  excerpt : Option Int
  deriving DecidableEq

/-- What a route has read when it begins. -/
inductive Reading where
  | health
  | postMessage (body : Value)
  | listMessages (query : MessagesQuery)
  | ack (messageId : String) (body : Value)
  | setPresence (agentParam : String) (body : Value)
  | listPresence
  | presenceHistory (agent : Option String) (since limit : Int)
  | knock (body : Value)
  | other (pattern : String)
  deriving DecidableEq

/-- `^-?\d+$`. -/
def isIntegerText : List Char → Bool
  | '-' :: digits => !digits.isEmpty && digits.all Char.isDigit
  | digits => !digits.isEmpty && digits.all Char.isDigit

/-- `Number` of such a text. -/
def integerOf : List Char → Int
  | '-' :: digits => -(Nat.ofDigitChars 10 digits 0 : Int)
  | digits => Nat.ofDigitChars 10 digits 0

/-- The options of `parseIntParam`. -/
structure IntOptions where
  min : Option Int
  max : Option Int
  default : Option Int

def parseIntParam (raw : Option String) (name : String) (opts : IntOptions) : Checked Int := do
  match raw.filter fun s => !s.isEmpty with
  | none =>
    match opts.default with
    | some n => return n
    | none => .error s!"{name} is required"
  | some text =>
    require (isIntegerText text.toList) s!"{name} must be an integer"
    let n := integerOf text.toList
    require (n.natAbs ≤ 2 ^ 53 - 1) s!"{name} is out of range"
    let n := opts.min.elim n (max n)
    return opts.max.elim n (min n)

/-- `MAX_HISTORY_MINUTES`. -/
def maxHistoryMinutes : Int := 10080

def sinceOptions : IntOptions := { min := some 0, max := some maxHistoryMinutes, default := some 60 }

def limitOptions : IntOptions := { min := some 1, max := some 500, default := some 50 }

section Reading

variable (server : Server)

def readMessagesQuery (url : Url) : Checked MessagesQuery := do
  let since ← parseIntParam (server.query url "since") "since" sinceOptions
  let limit ← parseIntParam (server.query url "limit") "limit" limitOptions
  let includeBroadcast := (server.query url "broadcast").all (· = "true")
  let excerpt ← (server.query url "excerpt").mapM fun raw =>
    parseIntParam (some raw) "excerpt" { min := some 0, max := none, default := none }
  return {
    agent := server.query url "agent"
    fromAgent := server.query url "from"
    since, limit, includeBroadcast
    topic := server.query url "topic"
    threadId := server.query url "thread_id"
    requiredTags := server.queryAll url "tag"
    repo := server.query url "repo"
    session := server.query url "session"
    excerpt }

/-- A body that is no document is read as an empty object. -/
def bodyOf (request : RestRequest) : Value := request.body.getD (.obj [])

/-- What an endpoint reads of a request that matched with these parameters. -/
def Endpoint.reads (params : List (List Char × List Char)) (request : RestRequest) :
    Endpoint → Checked Reading
  | .health => .ok .health
  | .postMessage => .ok (.postMessage (bodyOf request))
  | .listMessages => (readMessagesQuery server request.url).map .listMessages
  | .ack => .ok (.ack (Js.trim (server.param params "id")) (bodyOf request))
  | .setPresence => .ok (.setPresence (Js.trim (server.param params "agent")) (bodyOf request))
  | .listPresence => .ok .listPresence
  | .presenceHistory => do
    let since ← parseIntParam (server.query request.url "since") "since" sinceOptions
    let limit ← parseIntParam (server.query request.url "limit") "limit" limitOptions
    return .presenceHistory (server.query request.url "agent") since limit
  | .knock => .ok (.knock (bodyOf request))
  | .other pattern => .ok (.other pattern)

/-- What the Worker reads of a request; none where no route matches. -/
def reads (request : RestRequest) : Option (Checked Reading) :=
  (find routes request.method (server.getPath request.url.pathname)).map fun found =>
    found.1.reads server found.2 request

/-- What reaches the REST surface of a call: its bearer, and what the route it comes to reads. -/
def arrives (authorization : Option String) (name : String) (args : Fields) :
    Option (String × Option (Checked Reading)) :=
  (restRequest authorization name args).map fun request =>
    (request.authorization, reads server request)

end Reading

/-! ### Answers -/

/-- An answer of the REST surface. -/
structure RestResponse where
  status : Nat
  body : Value

/-- What a call is answered: the document, and whether it is an error. -/
def toolResult (response : RestResponse) : Value × Bool :=
  if 200 ≤ response.status ∧ response.status < 300 then (response.body, false)
  else
    (.obj [("error", .str "cloud tool request rejected"), ("status", .int response.status)], true)

/-- A call of a tool, on a REST surface that answers a bearer and what was read; none is an internal
error. -/
def callTool {σ : Type} (server : Server)
    (rest : String → Option (Checked Reading) → σ → σ × RestResponse) (authorization : Option String)
    (name : String) (args : Fields) (s : σ) : Option (σ × Value × Bool) :=
  (arrives server authorization name args).map fun arrived =>
    let (s, response) := rest arrived.1 arrived.2 s
    (s, toolResult response)

end AgentHub.Cloud.Mcp
