import Mathlib
import AgentHub.Cloud.Mcp
import AgentHub.Json.Equiv.Document
import AgentHub.Uri.Equiv.Router

/-!
# What a call of a tool comes to

A call of a tool reaches the route of the tool with its arguments as they are, unless its path argument
is empty, a dot or two dots, which are no segment of a path: `bridge_iff`.  Then it reaches no route
(`dot_acks_nothing` is one).
-/

namespace AgentHub.Cloud.Mcp

open AgentHub.Json AgentHub.Uri

/-! ### Routes -/

theorem matchParts_length {pattern : List Part} {segments : List (List Char)}
    {params : List (List Char × List Char)} (h : matchParts pattern segments = some params) :
    pattern.length = segments.length := by
  induction pattern generalizing segments params with
  | nil =>
    cases segments with
    | nil => rfl
    | cons segment segments => cases h
  | cons part pattern ih =>
    cases segments with
    | nil => cases part <;> cases h
    | cons segment segments =>
      rw [List.length_cons, List.length_cons]
      cases part with
      | literal text =>
        rw [matchParts] at h
        split at h
        · rw [ih h]
        · cases h
      | param name =>
        rw [matchParts] at h
        split at h
        · cases h
        · obtain ⟨params, hparams, -⟩ := Option.map_eq_some_iff.1 h
          rw [ih hparams]

theorem matchParts_eq_none {pattern : List Part} {segments : List (List Char)}
    (h : pattern.length ≠ segments.length) : matchParts pattern segments = none := by
  rw [Option.eq_none_iff_forall_not_mem]
  intro params hparams
  exact h (matchParts_length hparams)

/-- A route after others that have other methods or another number of segments. -/
theorem find_append {η : Type} {before after : List (Route η)} {found : Route η} {method : String}
    {path : List Char} {params : List (List Char × List Char)}
    (hbefore : ∀ r ∈ before, r.method.all (· = method) = true →
      r.pattern.length ≠ (path.splitOn '/').length)
    (hmethod : found.method.all (· = method) = true)
    (hmatch : matchParts found.pattern (path.splitOn '/') = some params) :
    find (before ++ found :: after) method path = some (found.handler, params) := by
  unfold find
  have hskip : before.findSome? (fun route =>
      if route.method.all (· = method) then
        (matchParts route.pattern (path.splitOn '/')).map (route.handler, ·)
      else none) = none := by
    rw [List.findSome?_eq_none_iff]
    intro r hr
    split
    · next hall =>
      rw [matchParts_eq_none (hbefore r hr hall)]
      rfl
    · rfl
  rw [List.findSome?_append, hskip, Option.none_or, List.findSome?_cons, if_pos hmethod, hmatch]
  rfl

/-- **The route of an acknowledgement.** -/
theorem find_ack {path segment : List Char} (hne : segment ≠ [])
    (hpath : path.splitOn '/' = [[], "messages".toList, segment, "ack".toList]) :
    find routes "POST" path = some (.ack, [("id".toList, segment)]) := by
  have hbefore : ∀ r ∈ routes.take 4, r.method.all (· = "POST") = true → r.pattern.length ≠ 4 := by
    decide
  have hpattern : parts "/messages/:id/ack" =
      [.literal [], .literal "messages".toList, .param "id".toList, .literal "ack".toList] := by decide
  have hroutes : routes = routes.take 4 ++ route "POST" "/messages/:id/ack" .ack :: routes.drop 5 := rfl
  rw [hroutes]
  refine find_append ?_ rfl ?_
  · rw [hpath]
    exact hbefore
  · show matchParts (parts "/messages/:id/ack") _ = _
    rw [hpath, hpattern]
    simp [matchParts, hne]

/-- **The route of a presence.** -/
theorem find_presence {path segment : List Char} (hne : segment ≠ [])
    (hpath : path.splitOn '/' = [[], "presence".toList, segment]) :
    find routes "PUT" path = some (.setPresence, [("agent".toList, segment)]) := by
  have hbefore : ∀ r ∈ routes.take 8, r.method.all (· = "PUT") = true → r.pattern.length ≠ 3 := by
    decide
  have hpattern : parts "/presence/:agent" =
      [.literal [], .literal "presence".toList, .param "agent".toList] := by decide
  have hroutes : routes =
      routes.take 8 ++ route "PUT" "/presence/:agent" .setPresence :: routes.drop 9 := rfl
  rw [hroutes]
  refine find_append ?_ rfl ?_
  · rw [hpath]
    exact hbefore
  · show matchParts (parts "/presence/:agent") _ = _
    rw [hpath, hpattern]
    simp [matchParts, hne]

/-! ### Arguments -/

section Arguments

variable {tool : Tool} {args : Fields} {key : String}

/-- An argument that is given is as its rule says. -/
theorem accepts_of_valid (hargs : validArguments args tool = true) {v : Value}
    (hv : args.lookup key = some v) {rule : Rule} (hrule : tool.properties.lookup key = some rule) :
    rule.accepts v = true := by
  rw [validArguments, Bool.and_eq_true, List.all_eq_true, List.all_eq_true] at hargs
  have haccepts := hargs.2 (key, v) (mem_of_lookup hv)
  rw [hrule] at haccepts
  exact haccepts

theorem given_of_required (hargs : validArguments args tool = true) (hkey : key ∈ tool.required) :
    ∃ v, args.lookup key = some v := by
  rw [validArguments, Bool.and_eq_true, List.all_eq_true] at hargs
  exact Option.isSome_iff_exists.1 (hargs.1 key hkey)

theorem Rule.accepts_string {v : Value} (h : Rule.accepts .string v = true) : ∃ s, v = .str s := by
  cases v with
  | str s => exact ⟨s, rfl⟩
  | null | bool b | int n | float x | arr items | obj fields => cases h

theorem Rule.accepts_boolean {v : Value} (h : Rule.accepts .boolean v = true) : ∃ b, v = .bool b := by
  cases v with
  | bool b => exact ⟨b, rfl⟩
  | null | str s | int n | float x | arr items | obj fields => cases h

theorem Rule.accepts_integer {minimum maximum : Int} {v : Value}
    (h : Rule.accepts (.integer minimum maximum) v = true) :
    ∃ n, v = .int n ∧ minimum ≤ n ∧ n ≤ maximum := by
  cases v with
  | int n =>
    simp only [Rule.accepts, Bool.and_eq_true, decide_eq_true_eq] at h
    exact ⟨n, rfl, h⟩
  | null | bool b | str s | float x | arr items | obj fields => cases h

theorem texts_of_all {items : List Value} (h : items.all isString = true) :
    items = (items.filterMap Value.asStr).map .str := by
  induction items with
  | nil => rfl
  | cons v items ih =>
    rw [List.all_cons, Bool.and_eq_true] at h
    cases v with
    | str s => exact congrArg (Value.str s :: ·) (ih h.2)
    | null | bool b | int n | float x | arr items | obj fields => cases h.1

theorem Rule.accepts_strings {v : Value} (h : Rule.accepts .strings v = true) :
    ∃ items : List Value, v = .arr items ∧ items = (items.filterMap Value.asStr).map .str := by
  cases v with
  | arr items => exact ⟨items, rfl, texts_of_all h⟩
  | null | bool b | str s | float x | int n | obj fields => cases h

/-- An argument that is a text. -/
def textArg (args : Fields) (key : String) : Option String := (args.lookup key).bind Value.asStr

/-- An argument that is a number, or the number that stands for it. -/
def intArg (args : Fields) (key : String) (otherwise : Int) : Int :=
  match args.lookup key with
  | some (.int n) => n
  | _ => otherwise

def boolArg (args : Fields) (key : String) (otherwise : Bool) : Bool :=
  ((args.lookup key).bind Value.asBool).getD otherwise

def textsArg (args : Fields) (key : String) : List String :=
  (((args.lookup key).bind Value.asArray).getD []).filterMap Value.asStr

theorem lookup_text (hargs : validArguments args tool = true)
    (hrule : tool.properties.lookup key = some .string) :
    args.lookup key = (textArg args key).map .str := by
  unfold textArg
  cases hv : args.lookup key with
  | none => rfl
  | some v =>
    obtain ⟨s, rfl⟩ := Rule.accepts_string (accepts_of_valid hargs hv hrule)
    rfl

theorem given_text {key : String} (otherwise : String)
    (h : args.lookup key = (textArg args key).map .str) :
    (Js.given (args.lookup key)).getD (.str otherwise) = .str ((textArg args key).getD otherwise) := by
  rw [h]
  cases textArg args key <;> rfl

theorem orElse_int (hargs : validArguments args tool = true) {minimum maximum otherwise : Int}
    (hrule : tool.properties.lookup key = some (.integer minimum maximum))
    (hmin : minimum ≤ otherwise) (hmax : otherwise ≤ maximum) :
    orElse args key (.int otherwise) = some (.int (intArg args key otherwise)) ∧
      minimum ≤ intArg args key otherwise ∧ intArg args key otherwise ≤ maximum := by
  unfold orElse intArg
  cases hv : args.lookup key with
  | none => exact ⟨rfl, hmin, hmax⟩
  | some v =>
    obtain ⟨n, rfl, hn⟩ := Rule.accepts_integer (accepts_of_valid hargs hv hrule)
    exact ⟨rfl, hn⟩

theorem orElse_bool (hargs : validArguments args tool = true)
    (hrule : tool.properties.lookup key = some .boolean) (otherwise : Bool) :
    orElse args key (.bool otherwise) = some (.bool (boolArg args key otherwise)) := by
  unfold orElse boolArg
  cases hv : args.lookup key with
  | none => rfl
  | some v =>
    obtain ⟨b, rfl⟩ := Rule.accepts_boolean (accepts_of_valid hargs hv hrule)
    rfl

theorem tags_of_valid (hargs : validArguments args tool = true)
    (hrule : tool.properties.lookup key = some .strings) :
    ((Js.given (args.lookup key)).bind Value.asArray).getD [] = (textsArg args key).map .str := by
  unfold textsArg
  cases hv : args.lookup key with
  | none => rfl
  | some v =>
    obtain ⟨items, rfl, hitems⟩ := Rule.accepts_strings (accepts_of_valid hargs hv hrule)
    exact hitems

end Arguments

/-! ### Numbers in queries -/

theorem integerText_toDigits (n : Nat) :
    isIntegerText (Nat.toDigits 10 n) = true ∧ integerOf (Nat.toDigits 10 n) = n := by
  have hdigits : ∀ c ∈ Nat.toDigits 10 n, c.isDigit = true := fun c hc =>
    Nat.isDigit_of_mem_toDigits (by decide) (by decide) hc
  have hvalue := Nat.ofDigitChars_ten_toDigits (n := n)
  obtain ⟨c, digits, htext⟩ := List.exists_cons_of_ne_nil (Nat.toDigits_ne_nil (n := n) (b := 10))
  rw [htext] at hdigits hvalue ⊢
  have hc : c ≠ '-' := by
    rintro rfl
    exact absurd (hdigits '-' List.mem_cons_self) (by decide)
  constructor
  · rw [isIntegerText]
    · simpa using hdigits
    · rintro rest heq
      exact hc (List.cons.inj heq).1
  · rw [integerOf]
    · rw [hvalue]
    · rintro rest heq
      exact hc (List.cons.inj heq).1

/-- **A number in a query** is read as it was written, up to its bounds. -/
theorem parseIntParam_toText {n : Int} (hpos : 0 ≤ n) (hsafe : n ≤ 2 ^ 53 - 1) (name : String)
    (opts : IntOptions) :
    parseIntParam (some (Js.toText (.int n))) name opts =
      .ok (opts.max.elim (opts.min.elim n (max n)) (min (opts.min.elim n (max n)))) := by
  obtain ⟨n, rfl⟩ := Int.eq_ofNat_of_zero_le hpos
  obtain ⟨htext, hvalue⟩ := integerText_toDigits n
  have htoText : Js.toText (.int (n : Int)) = String.ofList (Nat.toDigits 10 n) := rfl
  have hfull : (some (String.ofList (Nat.toDigits 10 n))).filter (fun s => !s.isEmpty) =
      some (String.ofList (Nat.toDigits 10 n)) := by
    rw [Option.filter_some, if_pos]
    rw [Bool.not_eq_true', Bool.eq_false_iff]
    intro hempty
    have hnil := congrArg String.toList (String.isEmpty_iff.1 hempty)
    rw [String.toList_ofList] at hnil
    exact Nat.toDigits_ne_nil hnil
  have hsmall : (n : Int).natAbs ≤ 2 ^ 53 - 1 := by omega
  unfold parseIntParam
  rw [htoText, hfull]
  dsimp only
  rw [String.toList_ofList, htext, hvalue, require, if_pos rfl, require, if_pos (by simpa using hsmall)]
  rfl

/-! ### Queries -/

theorem lookup_appendValue (query : Params) (target k : String) (value : Option Value) :
    (appendValue query target value).lookup k =
      if k = target then (value.map Js.toText).or (query.lookup k) else query.lookup k := by
  cases value with
  | none =>
    rw [Option.map_none, Option.none_or, ite_self]
    rfl
  | some v => exact Params.lookup_set query target (Js.toText v) k

theorem getAll_appendValue {query : Params} {target k : String} (h : k ≠ target)
    (value : Option Value) : (appendValue query target value).getAll k = query.getAll k := by
  cases value with
  | none => rfl
  | some v => exact Params.getAll_set h (Js.toText v)

theorem lookup_tags {query : Params} {k : String} (h : k ≠ "tag") (tags : List Value) :
    (tags.foldl (fun query tag => query.append "tag" (Js.toText tag)) query).lookup k =
      query.lookup k := by
  induction tags generalizing query with
  | nil => rfl
  | cons tag tags ih => rw [List.foldl_cons, ih, Params.lookup_append h]

theorem getAll_tags (query : Params) (tags : List Value) :
    (tags.foldl (fun query tag => query.append "tag" (Js.toText tag)) query).getAll "tag" =
      query.getAll "tag" ++ tags.map Js.toText := by
  induction tags generalizing query with
  | nil => exact (List.append_nil _).symm
  | cons tag tags ih =>
    rw [List.foldl_cons, ih, Params.getAll_append, if_pos rfl, List.append_assoc, List.map_cons,
      List.singleton_append]

section Server

variable (server : Server)

theorem query_serialize (pathname : List Char) (query : Params) (name : String) :
    server.query { pathname, query := some (serialize query) } name = query.lookup name := by
  unfold Server.query
  rw [Option.getD_some, params_serialize]

theorem queryAll_serialize (pathname : List Char) (query : Params) (name : String) :
    server.queryAll { pathname, query := some (serialize query) } name = query.getAll name := by
  unfold Server.queryAll
  rw [Option.getD_some, params_serialize]

end Server

/-! ### What a call should come to -/

/-- The filters of a listing, from its arguments. -/
def intendedQuery (args : Fields) : MessagesQuery where
  agent := textArg args "agent"
  fromAgent := textArg args "sender"
  since := intArg args "since_minutes" 1440
  limit := intArg args "limit" 50
  includeBroadcast := boolArg args "include_broadcast" true
  topic := textArg args "topic"
  threadId := textArg args "thread_id"
  requiredTags := textsArg args "tag"
  repo := textArg args "repo"
  session := textArg args "session"
  excerpt := none

/-- The route of a tool, with the arguments of the call.  A body is the document of its properties in
the order they are enumerated. -/
def intended (name : String) (args : Fields) : Option Reading :=
  match name with
  | "bus_health" => some .health
  | "post_message" => some (.postMessage (Js.ordered (.obj args)))
  | "list_messages" => some (.listMessages (intendedQuery args))
  | "ack_message" =>
    some (.ack (Js.trim ((textArg args "message_id").getD ""))
      (.obj [("agent", .str ((textArg args "agent").getD "")),
        ("body", .str ((textArg args "body").getD "ack"))]))
  | "set_presence" =>
    some (.setPresence (Js.trim ((textArg args "agent").getD ""))
      (Js.ordered (.obj (Js.setProperty args "status" (.str ((textArg args "status").getD "online"))))))
  | "list_presence" => some .listPresence
  | "list_presence_history" =>
    some (.presenceHistory (textArg args "agent") (intArg args "since_minutes" 1440)
      (intArg args "limit" 50))
  | "knock_agent" => some (.knock (Js.ordered (.obj args)))
  | _ => none

/-- The argument that is put into the path. -/
def pathArgument (name : String) (args : Fields) : Option String :=
  match name with
  | "ack_message" => textArg args "message_id"
  | "set_presence" => textArg args "agent"
  | _ => none

/-- A text that a path keeps as a segment. -/
def IsSegment (text : String) : Prop := text ≠ "" ∧ text ≠ "." ∧ text ≠ ".."

section Tools

variable {server : Server} {authorization : Option String} {args : Fields}

theorem arrives_eq {name : String} {call : RestCall} (url : Url) (endpoint : Endpoint)
    (params : List (List Char × List Char)) (hcall : restCall name args = some call)
    (hurl : resolve call.path = some url)
    (hfind : find routes call.method (server.getPath url.pathname) = some (endpoint, params)) :
    arrives server authorization name args =
      some (authorization.getD "", some (endpoint.reads server params
        { method := call.method, url, authorization := authorization.getD ""
          body := call.body.map Js.ordered })) := by
  unfold arrives restRequest reads
  rw [hcall]
  dsimp only [Option.bind_eq_bind, Option.bind_some]
  rw [hurl]
  dsimp only [Option.bind_some, Option.pure_def, Option.map_some]
  rw [hfind]
  rfl

/-- A path without escapes is compared as it is. -/
theorem getPath_of_notMem {pathname : List Char} (h : '%' ∉ pathname) :
    server.getPath pathname = pathname := if_neg h

/-- A path of the Worker without a parameter. -/
theorem arrives_fixed {name : String} {call : RestCall} (url : Url) (endpoint : Endpoint)
    (hcall : restCall name args = some call) (hurl : resolve call.path = some url)
    (hplain : '%' ∉ url.pathname)
    (hfind : find routes call.method url.pathname = some (endpoint, [])) :
    arrives server authorization name args =
      some (authorization.getD "", some (endpoint.reads server []
        { method := call.method, url, authorization := authorization.getD ""
          body := call.body.map Js.ordered })) :=
  arrives_eq url endpoint [] hcall hurl (by rw [getPath_of_notMem hplain, hfind])

theorem arrives_health : arrives server authorization "bus_health" args =
    some (authorization.getD "", some (.ok .health)) :=
  arrives_fixed ⟨"/health".toList, none⟩ .health rfl (by decide) (by decide) (by decide)

theorem arrives_post : arrives server authorization "post_message" args =
    some (authorization.getD "", some (.ok (.postMessage (Js.ordered (.obj args))))) := by
  have hcall : restCall "post_message" args =
      some { path := "/messages".toList, method := "POST", body := some (.obj args) } := rfl
  have hurl : resolve "/messages".toList = some ⟨"/messages".toList, none⟩ := by decide
  have hfind : find routes "POST" "/messages".toList = some (.postMessage, []) := by decide
  exact arrives_fixed ⟨"/messages".toList, none⟩ .postMessage hcall hurl (by decide) hfind

theorem arrives_presences : arrives server authorization "list_presence" args =
    some (authorization.getD "", some (.ok .listPresence)) :=
  arrives_fixed ⟨"/presence".toList, none⟩ .listPresence rfl (by decide) (by decide) (by decide)

theorem arrives_knock : arrives server authorization "knock_agent" args =
    some (authorization.getD "", some (.ok (.knock (Js.ordered (.obj args))))) := by
  have hcall : restCall "knock_agent" args =
      some { path := "/knock".toList, method := "POST", body := some (.obj args) } := rfl
  have hurl : resolve "/knock".toList = some ⟨"/knock".toList, none⟩ := by decide
  have hfind : find routes "POST" "/knock".toList = some (.knock, []) := by decide
  exact arrives_fixed ⟨"/knock".toList, none⟩ .knock hcall hurl (by decide) hfind

/-- A segment of a fixed path. -/
theorem plain_of_decide {segment : List Char} (hsafe : segment.all isSafe = true)
    (hsingle : isSingleDot segment = false) (hdouble : isDoubleDot segment = false) :
    Plain segment :=
  ⟨List.all_eq_true.1 hsafe, hsingle, hdouble⟩

-- Two URLs are compared by their references, never by what `resolve` makes of them.
seal resolve

theorem resolve_messages (query : Params) :
    resolve ("/messages?".toList ++ serialize query) =
      some { pathname := "/messages".toList, query := some (serialize query) } := by
  have hplain : ∀ s ∈ ["messages".toList], Plain s := by
    intro s hs
    obtain rfl := List.mem_singleton.1 hs
    exact plain_of_decide (by decide) (by decide) (by decide)
  have hquery : ∀ q ∈ some (serialize query), ∀ c ∈ q, isQuerySafe c = true := by
    rintro q ⟨⟩ c hc
    exact mem_serialize hc
  exact resolve_reference (by decide) hplain hquery

theorem resolve_history (query : Params) :
    resolve ("/presence/history?".toList ++ serialize query) =
      some { pathname := "/presence/history".toList, query := some (serialize query) } := by
  have hplain : ∀ s ∈ ["presence".toList, "history".toList], Plain s := by
    intro s hs
    rcases List.mem_pair.1 hs with rfl | rfl
    · exact plain_of_decide (by decide) (by decide) (by decide)
    · exact plain_of_decide (by decide) (by decide) (by decide)
  have hquery : ∀ q ∈ some (serialize query), ∀ c ∈ q, isQuerySafe c = true := by
    rintro q ⟨⟩ c hc
    exact mem_serialize hc
  exact resolve_reference (by decide) hplain hquery

/-- The two numbers of a query within their bounds. -/
theorem parse_since {n : Int} (hmin : 1 ≤ n) (hmax : n ≤ 10080) :
    parseIntParam (some (Js.toText (.int n))) "since" sinceOptions = .ok n := by
  rw [parseIntParam_toText (by omega) (by omega)]
  show Except.ok (min (max n 0) 10080) = _
  rw [max_eq_left (by omega), min_eq_left hmax]

theorem parse_limit {n : Int} (hmin : 1 ≤ n) (hmax : n ≤ 500) :
    parseIntParam (some (Js.toText (.int n))) "limit" limitOptions = .ok n := by
  rw [parseIntParam_toText (by omega) (by omega)]
  show Except.ok (min (max n 1) 500) = _
  rw [max_eq_left hmin, min_eq_left hmax]

theorem map_toText_str (text : Option String) : (text.map Value.str).map Js.toText = text := by
  cases text with
  | none => rfl
  | some s => rfl

theorem reads_history {tool : Tool} (hargs : validArguments args tool = true)
    (hagent : tool.properties.lookup "agent" = some .string)
    (hsince : tool.properties.lookup "since_minutes" = some window)
    (hlimit : tool.properties.lookup "limit" = some limit) {request : RestRequest}
    {pathname : List Char} (hurl : request.url = ⟨pathname, some (serialize (historyQuery args))⟩) :
    Endpoint.reads server [] request .presenceHistory =
      .ok (.presenceHistory (textArg args "agent") (intArg args "since_minutes" 1440)
        (intArg args "limit" 50)) := by
  -- both numbers are bounded by the tool's schema
  obtain ⟨hsinceArg, hsinceMin, hsinceMax⟩ := orElse_int hargs hsince
    (by decide : 1 ≤ (1440 : Int)) (by decide)
  obtain ⟨hlimitArg, hlimitMin, hlimitMax⟩ := orElse_int hargs hlimit
    (by decide : 1 ≤ (50 : Int)) (by decide)
  -- the three parameters are read back from the query string
  have hagentText : (historyQuery args).lookup "agent" = textArg args "agent" := by
    unfold historyQuery
    rw [lookup_appendValue, if_neg (by decide), lookup_appendValue, if_neg (by decide),
      lookup_appendValue, if_pos rfl, lookup_text hargs hagent, map_toText_str]
    exact Option.or_none
  have hsinceText : (historyQuery args).lookup "since" =
      some (Js.toText (.int (intArg args "since_minutes" 1440))) := by
    unfold historyQuery
    rw [lookup_appendValue, if_neg (by decide), lookup_appendValue, if_pos rfl, hsinceArg]
    rfl
  have hlimitText : (historyQuery args).lookup "limit" =
      some (Js.toText (.int (intArg args "limit" 50))) := by
    unfold historyQuery
    rw [lookup_appendValue, if_pos rfl, hlimitArg]
    rfl
  unfold Endpoint.reads
  rw [hurl, query_serialize, query_serialize, query_serialize, hagentText, hsinceText, hlimitText,
    parse_since hsinceMin hsinceMax, parse_limit hlimitMin hlimitMax]
  rfl

theorem arrives_history {tool : Tool} (hargs : validArguments args tool = true)
    (hagent : tool.properties.lookup "agent" = some .string)
    (hsince : tool.properties.lookup "since_minutes" = some window)
    (hlimit : tool.properties.lookup "limit" = some limit) :
    arrives server authorization "list_presence_history" args =
      some (authorization.getD "", some (.ok (.presenceHistory (textArg args "agent")
        (intArg args "since_minutes" 1440) (intArg args "limit" 50)))) := by
  have hfind : find routes "GET" "/presence/history".toList = some (.presenceHistory, []) := by decide
  rw [arrives_fixed ⟨"/presence/history".toList, some (serialize (historyQuery args))⟩
    .presenceHistory rfl (resolve_history _) (show '%' ∉ "/presence/history".toList by decide) hfind,
    reads_history hargs hagent hsince hlimit rfl]

/-- The texts a listing filters by, under the names of their parameters. -/
def filterNames : List (String × String) :=
  [("agent", "agent"), ("topic", "topic"), ("repo", "repo"), ("session", "session"),
    ("thread_id", "thread_id"), ("from", "sender")]

theorem messagesQuery_filter {tool : Tool} (hargs : validArguments args tool = true)
    {target key : String} (hname : (target, key) ∈ filterNames)
    (hrule : tool.properties.lookup key = some .string) :
    (messagesQuery args).lookup target = textArg args key := by
  have htext : ((args.lookup key).map Js.toText).or none = textArg args key := by
    rw [lookup_text hargs hrule, map_toText_str, Option.or_none]
  have hlookup : (messagesQuery args).lookup target = ((args.lookup key).map Js.toText).or none := by
    simp only [filterNames, List.mem_cons, Prod.mk.injEq, List.not_mem_nil, or_false] at hname
    unfold messagesQuery
    rcases hname with ⟨rfl, rfl⟩ | ⟨rfl, rfl⟩ | ⟨rfl, rfl⟩ | ⟨rfl, rfl⟩ | ⟨rfl, rfl⟩ | ⟨rfl, rfl⟩ <;>
      simp [lookup_tags, lookup_appendValue]
  rw [hlookup, htext]

theorem messagesQuery_numbers (args : Fields) :
    (messagesQuery args).lookup "since" = (orElse args "since_minutes" (.int 1440)).map Js.toText ∧
      (messagesQuery args).lookup "limit" = (orElse args "limit" (.int 50)).map Js.toText ∧
      (messagesQuery args).lookup "broadcast" =
        (orElse args "include_broadcast" (.bool true)).map Js.toText ∧
      (messagesQuery args).lookup "excerpt" = none := by
  unfold messagesQuery
  refine ⟨?_, ?_, ?_, ?_⟩ <;> simp [lookup_tags, lookup_appendValue, orElse]

theorem messagesQuery_tags (args : Fields) :
    (messagesQuery args).getAll "tag" =
      (((Js.given (args.lookup "tag")).bind Value.asArray).getD []).map Js.toText := by
  unfold messagesQuery
  rw [getAll_tags]
  simp [getAll_appendValue]
  rfl

theorem broadcast_text (b : Bool) : (some (Js.toText (.bool b))).all (· = "true") = b := by
  cases b <;> decide

/-- What a listing reads is what its arguments say. -/
theorem reads_messages {tool : Tool} (hargs : validArguments args tool = true)
    (hfilters : ∀ name ∈ filterNames, tool.properties.lookup name.2 = some .string)
    (hsince : tool.properties.lookup "since_minutes" = some window)
    (hlimit : tool.properties.lookup "limit" = some limit)
    (hbroadcast : tool.properties.lookup "include_broadcast" = some .boolean)
    (htag : tool.properties.lookup "tag" = some .strings) {pathname : List Char} :
    readMessagesQuery server ⟨pathname, some (serialize (messagesQuery args))⟩ =
      .ok (intendedQuery args) := by
  -- the window and the limit are within the bounds that the endpoint checks
  obtain ⟨hsinceArg, hsinceMin, hsinceMax⟩ := orElse_int hargs hsince
    (by decide : 1 ≤ (1440 : Int)) (by decide)
  obtain ⟨hlimitArg, hlimitMin, hlimitMax⟩ := orElse_int hargs hlimit
    (by decide : 1 ≤ (50 : Int)) (by decide)
  obtain ⟨hsinceText, hlimitText, hbroadcastText, hexcerptText⟩ := messagesQuery_numbers args
  rw [hsinceArg, Option.map_some] at hsinceText
  rw [hlimitArg, Option.map_some] at hlimitText
  rw [orElse_bool hargs hbroadcast, Option.map_some] at hbroadcastText
  -- the tags come back in their order
  have htags : (messagesQuery args).getAll "tag" = textsArg args "tag" := by
    rw [messagesQuery_tags, tags_of_valid hargs htag, List.map_map]
    exact List.map_id _
  -- and so does every filter that was given
  have hfilter : ∀ name ∈ filterNames, (messagesQuery args).lookup name.1 = textArg args name.2 :=
    fun name hname => messagesQuery_filter hargs hname (hfilters name hname)
  unfold readMessagesQuery
  simp only [query_serialize, queryAll_serialize]
  rw [hsinceText, hlimitText, hbroadcastText, hexcerptText, htags, broadcast_text,
    parse_since hsinceMin hsinceMax, parse_limit hlimitMin hlimitMax,
    hfilter ("agent", "agent") (by decide), hfilter ("topic", "topic") (by decide),
    hfilter ("repo", "repo") (by decide), hfilter ("session", "session") (by decide),
    hfilter ("thread_id", "thread_id") (by decide), hfilter ("from", "sender") (by decide)]
  rfl

theorem arrives_messages {tool : Tool} (hargs : validArguments args tool = true)
    (hfilters : ∀ name ∈ filterNames, tool.properties.lookup name.2 = some .string)
    (hsince : tool.properties.lookup "since_minutes" = some window)
    (hlimit : tool.properties.lookup "limit" = some limit)
    (hbroadcast : tool.properties.lookup "include_broadcast" = some .boolean)
    (htag : tool.properties.lookup "tag" = some .strings) :
    arrives server authorization "list_messages" args =
      some (authorization.getD "", some (.ok (.listMessages (intendedQuery args)))) := by
  have hfind : find routes "GET" "/messages".toList = some (.listMessages, []) := by decide
  rw [arrives_fixed ⟨"/messages".toList, some (serialize (messagesQuery args))⟩ .listMessages rfl
    (resolve_messages _) (show '%' ∉ "/messages".toList by decide) hfind, Endpoint.reads,
    reads_messages hargs hfilters hsince hlimit hbroadcast htag]
  rfl

/-! ### Paths with an argument -/

theorem isSegment_toList {text : String} (h : IsSegment text) :
    text.toList ≠ [] ∧ text.toList ≠ ".".toList ∧ text.toList ≠ "..".toList := by
  obtain ⟨hne, hdot, hdots⟩ := h
  exact ⟨fun heq => hne (String.toList_inj.1 heq), fun heq => hdot (String.toList_inj.1 heq),
    fun heq => hdots (String.toList_inj.1 heq)⟩

/-- The URL of a path of segments that were encoded, where none of them is a dot. -/
theorem resolve_segments (first : List Char) (segments : List (List Char))
    (hfirst : encodeURIComponent first ≠ [])
    (hplain : ∀ s ∈ first :: segments, s ≠ ".".toList ∧ s ≠ "..".toList) :
    resolve (pathOf ((first :: segments).map encodeURIComponent)) =
      some ⟨pathOf ((first :: segments).map encodeURIComponent), none⟩ := by
  have hsegments : ∀ s ∈ (first :: segments).map encodeURIComponent, Plain s := by
    intro s hs
    obtain ⟨text, htext, rfl⟩ := List.mem_map.1 hs
    exact plain_encode (hplain text htext).1 (hplain text htext).2
  have hresolve : resolve (referenceOf ((first :: segments).map encodeURIComponent) none) = _ :=
    resolve_reference hfirst hsegments nofun
  rwa [referenceOf, Option.elim_none, List.append_nil] at hresolve

variable (server authorization) in
/-- A path of the Worker with a parameter. -/
theorem arrives_segments {name : String} {call : RestCall} (first : List Char)
    (segments : List (List Char)) {endpoint : Endpoint} {params : List (List Char × List Char)}
    (hcall : restCall name args = some call)
    (hpath : call.path = pathOf ((first :: segments).map encodeURIComponent))
    (hfirst : encodeURIComponent first ≠ [])
    (hplain : ∀ s ∈ first :: segments, s ≠ ".".toList ∧ s ≠ "..".toList)
    (hfind : ∀ path : List Char, path.splitOn '/' = [] :: (first :: segments).map held →
      find routes call.method path = some (endpoint, params)) :
    ∃ url, arrives server authorization name args =
      some (authorization.getD "", some (endpoint.reads server params
        { method := call.method, url, authorization := authorization.getD ""
          body := call.body.map Js.ordered })) := by
  refine ⟨⟨pathOf ((first :: segments).map encodeURIComponent), none⟩, ?_⟩
  refine arrives_eq _ endpoint params hcall ?_ ?_
  · rw [hpath]
    exact resolve_segments first segments hfirst hplain
  · exact hfind _ (splitOn_getPath server (first :: segments))

theorem pathText_of_lookup {key text : String} (h : args.lookup key = some (.str text)) :
    pathText args key = text.toList := by
  rw [pathText, h]
  rfl

theorem param_segment {name : String} (text : String) :
    server.param [(name.toList, held text.toList)] name = text := by
  have hparam : server.param [(name.toList, held text.toList)] name = String.ofList text.toList :=
    param_held server (by rw [List.lookup_cons_self])
  rw [hparam, String.ofList_toList]

/-- The properties of an acknowledgement are enumerated as they were put. -/
theorem ordered_ack (agent body : String) :
    Js.ordered (.obj [("agent", .str agent), ("body", .str body)]) =
      .obj [("agent", .str agent), ("body", .str body)] := by
  have hagent : Js.arrayIndex "agent" = none := by decide
  have hbody : Js.arrayIndex "body" = none := by decide
  simp [Js.ordered, Js.orderedFields, Js.ownProperties, hagent, hbody]

theorem arrives_ack {tool : Tool} (hargs : validArguments args tool = true)
    (hagent : tool.properties.lookup "agent" = some .string)
    (hbody : tool.properties.lookup "body" = some .string)
    (hrequired : "agent" ∈ tool.required) {id : String}
    (hid : args.lookup "message_id" = some (.str id)) (hsegment : IsSegment id) :
    arrives server authorization "ack_message" args =
      some (authorization.getD "", some (.ok (.ack (Js.trim id)
        (.obj [("agent", .str ((textArg args "agent").getD "")),
          ("body", .str ((textArg args "body").getD "ack"))])))) := by
  obtain ⟨hne, hdot, hdots⟩ := isSegment_toList hsegment
  -- the path has the id as one of its three segments
  have hpath : "/messages/".toList ++ encodeURIComponent (pathText args "message_id") ++ "/ack".toList =
      pathOf (["messages".toList, id.toList, "ack".toList].map encodeURIComponent) := by
    have hmessages : encodeURIComponent "messages".toList = "messages".toList := by decide
    have hack : encodeURIComponent "ack".toList = "ack".toList := by decide
    rw [pathText_of_lookup hid, List.map_cons, List.map_cons, List.map_cons, List.map_nil, hmessages,
      hack]
    simp [pathOf]
  -- a segment that is neither dot is not resolved away
  have hplain : ∀ s ∈ ["messages".toList, id.toList, "ack".toList],
      s ≠ ".".toList ∧ s ≠ "..".toList :=
    List.forall_mem_cons.2 ⟨by decide, List.forall_mem_cons.2 ⟨⟨hdot, hdots⟩,
      List.forall_mem_singleton.2 (by decide)⟩⟩
  -- the router finds the route with the encoded id
  have hfind : ∀ path : List Char,
      path.splitOn '/' = [] :: ["messages".toList, id.toList, "ack".toList].map held →
      find routes "POST" path = some (.ack, [("id".toList, held id.toList)]) := by
    have hmessages : held "messages".toList = "messages".toList := by decide
    have hack : held "ack".toList = "ack".toList := by decide
    intro path hsplit
    rw [List.map_cons, List.map_cons, List.map_cons, List.map_nil, hmessages, hack] at hsplit
    exact find_ack (held_ne_nil hne) hsplit
  have hagentArg : args.lookup "agent" = some (.str ((textArg args "agent").getD "")) := by
    obtain ⟨v, hv⟩ := given_of_required hargs hrequired
    obtain ⟨agent, rfl⟩ := Rule.accepts_string (accepts_of_valid hargs hv hagent)
    rw [textArg, hv]
    rfl
  have hbodyArg : orElse args "body" (.str "ack") = some (.str ((textArg args "body").getD "ack")) :=
    congrArg some (given_text "ack" (lookup_text hargs hbody))
  have hcall : restCall "ack_message" args = some
      { path := "/messages/".toList ++ encodeURIComponent (pathText args "message_id") ++ "/ack".toList
        method := "POST"
        body := some (.obj [("agent", .str ((textArg args "agent").getD "")),
          ("body", .str ((textArg args "body").getD "ack"))]) } := by
    rw [restCall, hagentArg, hbodyArg]
    rfl
  -- so the request arrives, with the decoded id as its parameter
  obtain ⟨url, harrives⟩ := arrives_segments server authorization "messages".toList
    [id.toList, "ack".toList] hcall hpath (by decide) hplain hfind
  rw [harrives, Endpoint.reads, param_segment, bodyOf, Option.map_some, Option.getD_some, ordered_ack]

theorem arrives_presence {agent : String} (hagent : args.lookup "agent" = some (.str agent))
    (hstatus : args.lookup "status" = (textArg args "status").map .str) (hsegment : IsSegment agent) :
    arrives server authorization "set_presence" args =
      some (authorization.getD "", some (.ok (.setPresence (Js.trim agent)
        (Js.ordered (.obj
          (Js.setProperty args "status" (.str ((textArg args "status").getD "online")))))))) := by
  obtain ⟨hne, hdot, hdots⟩ := isSegment_toList hsegment
  -- the agent is the last of two segments
  have hpath : "/presence/".toList ++ encodeURIComponent (pathText args "agent") =
      pathOf (["presence".toList, agent.toList].map encodeURIComponent) := by
    have hpresence : encodeURIComponent "presence".toList = "presence".toList := by decide
    rw [pathText_of_lookup hagent, List.map_cons, List.map_cons, List.map_nil, hpresence]
    simp [pathOf]
  -- and is not resolved away
  have hplain : ∀ s ∈ ["presence".toList, agent.toList], s ≠ ".".toList ∧ s ≠ "..".toList :=
    List.forall_mem_cons.2 ⟨by decide, List.forall_mem_singleton.2 ⟨hdot, hdots⟩⟩
  have hfind : ∀ path : List Char,
      path.splitOn '/' = [] :: ["presence".toList, agent.toList].map held →
      find routes "PUT" path = some (.setPresence, [("agent".toList, held agent.toList)]) := by
    have hpresence : held "presence".toList = "presence".toList := by decide
    intro path hsplit
    rw [List.map_cons, List.map_cons, List.map_nil, hpresence] at hsplit
    exact find_presence (held_ne_nil hne) hsplit
  have hcall : restCall "set_presence" args = some
      { path := "/presence/".toList ++ encodeURIComponent (pathText args "agent")
        method := "PUT"
        body := some (.obj
          (Js.setProperty args "status" (.str ((textArg args "status").getD "online")))) } := by
    rw [restCall, given_text "online" hstatus]
  obtain ⟨url, harrives⟩ := arrives_segments server authorization "presence".toList
    [agent.toList] hcall hpath (by decide) hplain hfind
  rw [harrives, Endpoint.reads, param_segment]
  rfl

/-! ### Paths that lose their argument -/

theorem not_isSegment {text : String} (h : ¬ IsSegment text) : text = "" ∨ text = "." ∨ text = ".." := by
  unfold IsSegment at h
  tauto

/-- A path that no route is for. -/
theorem arrives_nowhere {name : String} {call : RestCall} (hcall : restCall name args = some call)
    (hlost : (resolve call.path).any (fun url =>
      !url.pathname.contains '%' && (find routes call.method url.pathname).isNone) = true) :
    arrives server authorization name args = some (authorization.getD "", none) := by
  obtain ⟨url, hurl, hnone⟩ := (Option.any_eq_true _ _).1 hlost
  rw [Bool.and_eq_true, Bool.not_eq_true', Option.isNone_iff_eq_none] at hnone
  have hplain : '%' ∉ url.pathname := by
    intro hmem
    rw [List.contains_iff_mem.2 hmem] at hnone
    cases hnone.1
  unfold arrives restRequest reads
  rw [hcall]
  dsimp only [Option.bind_eq_bind, Option.bind_some]
  rw [hurl]
  dsimp only [Option.bind_some, Option.pure_def, Option.map_some]
  rw [getPath_of_notMem hplain, hnone.2]
  rfl

/-- The paths without their argument, each with its method. -/
def lostPaths : List (String × List Char) :=
  ["".toList, ".".toList, "..".toList].flatMap fun text =>
    [("POST", "/messages/".toList ++ encodeURIComponent text ++ "/ack".toList),
      ("PUT", "/presence/".toList ++ encodeURIComponent text)]

theorem lostPaths_nowhere : ∀ lost ∈ lostPaths, (resolve lost.2).any (fun url =>
    !url.pathname.contains '%' && (find routes lost.1 url.pathname).isNone) = true := by
  decide +kernel

theorem mem_lostPaths {text : String} (h : ¬ IsSegment text) :
    ("POST", "/messages/".toList ++ encodeURIComponent text.toList ++ "/ack".toList) ∈ lostPaths ∧
      ("PUT", "/presence/".toList ++ encodeURIComponent text.toList) ∈ lostPaths := by
  have hmem : text.toList ∈ ["".toList, ".".toList, "..".toList] := by
    rcases not_isSegment h with rfl | rfl | rfl
    · exact List.mem_cons_self
    · exact List.mem_cons_of_mem _ List.mem_cons_self
    · exact List.mem_cons_of_mem _ (List.mem_cons_of_mem _ List.mem_cons_self)
  constructor
  · exact List.mem_flatMap.2 ⟨_, hmem, List.mem_cons_self⟩
  · exact List.mem_flatMap.2 ⟨_, hmem, List.mem_cons_of_mem _ List.mem_cons_self⟩

/-- An acknowledgement without a segment for its message reaches no route. -/
theorem arrives_ack_lost {id : String} (hid : args.lookup "message_id" = some (.str id))
    (hlost : ¬ IsSegment id) :
    arrives server authorization "ack_message" args = some (authorization.getD "", none) := by
  have hcall : restCall "ack_message" args = some
      { path := "/messages/".toList ++ encodeURIComponent (pathText args "message_id") ++ "/ack".toList
        method := "POST"
        body := some (.obj (Fields.compact
          [("agent", args.lookup "agent"), ("body", orElse args "body" (.str "ack"))])) } := rfl
  refine arrives_nowhere hcall ?_
  rw [pathText_of_lookup hid]
  exact lostPaths_nowhere _ (mem_lostPaths hlost).1

/-- A presence without a segment for its agent reaches no route. -/
theorem arrives_presence_lost {agent : String} (hagent : args.lookup "agent" = some (.str agent))
    (hlost : ¬ IsSegment agent) :
    arrives server authorization "set_presence" args = some (authorization.getD "", none) := by
  have hcall : restCall "set_presence" args = some
      { path := "/presence/".toList ++ encodeURIComponent (pathText args "agent")
        method := "PUT"
        body := some (.obj (Js.setProperty args "status"
          ((Js.given (args.lookup "status")).getD (.str "online")))) } := rfl
  refine arrives_nowhere hcall ?_
  rw [pathText_of_lookup hagent]
  exact lostPaths_nowhere _ (mem_lostPaths hlost).2

/-! ### The requests of the Worker's model -/

/-- What a request of the Worker's model reads. -/
def readingOf : Request → Option Reading
  | .messages body => some (.postMessage body)
  | .ack id body => some (.ack (Js.trim id) body)
  | .knock body => some (.knock body)
  | .presence agentParam body => some (.setPresence (Js.trim agentParam) body)
  | _ => none

theorem isSegment_iff {text : String} : isSegment text = true ↔ IsSegment text := by
  simp [isSegment, IsSegment, and_assoc]

/-- **The request the Worker's model has for a call** is the one that arrives. -/
theorem arrives_eq_restCall {tool : Tool} (htool : tool ∈ mcpTools)
    (hargs : validArguments args tool = true) :
    arrives server authorization tool.name args =
      some (authorization.getD "", ((Cloud.restCall tool.name args).bind readingOf).map .ok) := by
  simp only [mcpTools, List.mem_cons, List.not_mem_nil, or_false] at htool
  rcases htool with rfl | rfl | rfl | rfl
  · exact arrives_post
  · -- the id is required and is a text
    obtain ⟨v, hv⟩ := given_of_required hargs (show "message_id" ∈ ["agent", "message_id"] by decide)
    obtain ⟨id, rfl⟩ := Rule.accepts_string (accepts_of_valid hargs hv rfl)
    obtain ⟨v, hagent⟩ := given_of_required hargs (show "agent" ∈ ["agent", "message_id"] by decide)
    obtain ⟨agent, rfl⟩ := Rule.accepts_string (accepts_of_valid hargs hagent rfl)
    have hmodel : Cloud.restCall "ack_message" args = if isSegment id then
        some (.ack id (.obj [("agent", .str ((textArg args "agent").getD "")),
          ("body", .str ((textArg args "body").getD "ack"))])) else none := by
      have hbody : (Js.given (args.lookup "body")).getD (.str "ack") =
          .str ((textArg args "body").getD "ack") := given_text "ack" (lookup_text hargs rfl)
      simp only [Cloud.restCall, hbody, hv]
      simp [textArg, hagent, Value.asStr]
    dsimp only
    rw [hmodel]
    -- a text that is no segment of a path loses the call
    by_cases hsegment : IsSegment id
    · rw [arrives_ack hargs rfl rfl (by decide) hv hsegment, if_pos (isSegment_iff.2 hsegment)]
      rfl
    · rw [arrives_ack_lost hv hsegment, if_neg (mt isSegment_iff.1 hsegment)]
      rfl
  · -- the presence of an agent: the same, with the agent as segment
    obtain ⟨v, hagent⟩ := given_of_required hargs (show "agent" ∈ ["agent"] by decide)
    obtain ⟨agent, rfl⟩ := Rule.accepts_string (accepts_of_valid hargs hagent rfl)
    have hmodel : Cloud.restCall "set_presence" args = if isSegment agent then
        some (.presence agent (Js.ordered (.obj
          (Js.setProperty args "status" (.str ((textArg args "status").getD "online"))))))
        else none := by
      have hstatus : (Js.given (args.lookup "status")).getD (.str "online") =
          .str ((textArg args "status").getD "online") := given_text "online" (lookup_text hargs rfl)
      simp only [Cloud.restCall, hstatus, hagent]
    dsimp only
    rw [hmodel]
    by_cases hsegment : IsSegment agent
    · rw [arrives_presence hagent (lookup_text hargs rfl) hsegment,
        if_pos (isSegment_iff.2 hsegment)]
      rfl
    · rw [arrives_presence_lost hagent hsegment, if_neg (mt isSegment_iff.1 hsegment)]
      rfl
  · exact arrives_knock

/-! ### The bridge -/

/-- A call of a tool comes to its route. -/
structure Bridged (server : Server) (authorization : Option String) (name : String) (args : Fields) :
    Prop where
  /-- The route reads the bearer and the arguments of the call. -/
  reading : ∃ reading, intended name args = some reading ∧
    arrives server authorization name args = some (authorization.getD "", some (.ok reading))
  /-- A request to the route itself, with the same bearer and the same arguments, has the effect and
  the answer of the call. -/
  same : ∀ reading, intended name args = some reading → ∀ {σ : Type}
    (rest : String → Option (Checked Reading) → σ → σ × RestResponse) (s : σ) (request : RestRequest),
    request.authorization = authorization.getD "" → reads server request = some (.ok reading) →
    callTool server rest authorization name args s =
      some ((rest request.authorization (reads server request) s).1,
        toolResult (rest request.authorization (reads server request) s).2)

theorem bridged_of_arrives {name : String} {reading : Reading} (hintended : intended name args = some reading)
    (harrives : arrives server authorization name args =
      some (authorization.getD "", some (.ok reading))) :
    Bridged server authorization name args where
  reading := ⟨reading, hintended, harrives⟩
  same := by
    intro other hother σ rest s request hbearer hreads
    obtain rfl := Option.some.inj (hintended.symm.trans hother)
    rw [callTool, harrives, hbearer, hreads]
    rfl

theorem not_bridged_of_nowhere {name : String}
    (hnowhere : arrives server authorization name args = some (authorization.getD "", none)) :
    ¬ Bridged server authorization name args := by
  rintro ⟨⟨reading, -, harrives⟩, -⟩
  rw [hnowhere] at harrives
  cases harrives

theorem bridged_ack {tool : Tool} (hargs : validArguments args tool = true)
    (hid : tool.properties.lookup "message_id" = some .string)
    (hagent : tool.properties.lookup "agent" = some .string)
    (hbody : tool.properties.lookup "body" = some .string)
    (hrequired : "agent" ∈ tool.required ∧ "message_id" ∈ tool.required) :
    Bridged server authorization "ack_message" args ↔
      ∀ text ∈ pathArgument "ack_message" args, IsSegment text := by
  obtain ⟨v, hv⟩ := given_of_required hargs hrequired.2
  obtain ⟨id, rfl⟩ := Rule.accepts_string (accepts_of_valid hargs hv hid)
  have hpath : pathArgument "ack_message" args = some id := by
    show textArg args "message_id" = some id
    rw [textArg, hv]
    rfl
  rw [hpath]
  simp only [Option.mem_some_iff, forall_eq']
  constructor
  · intro h
    by_contra hlost
    exact not_bridged_of_nowhere (arrives_ack_lost hv hlost) h
  · intro hsegment
    refine bridged_of_arrives ?_ (arrives_ack hargs hagent hbody hrequired.1 hv hsegment)
    show some (Reading.ack (Js.trim ((pathArgument "ack_message" args).getD "")) _) = _
    rw [hpath]
    rfl

theorem bridged_presence {tool : Tool} (hargs : validArguments args tool = true)
    (hagent : tool.properties.lookup "agent" = some .string)
    (hstatus : tool.properties.lookup "status" = some .string)
    (hrequired : "agent" ∈ tool.required) :
    Bridged server authorization "set_presence" args ↔
      ∀ text ∈ pathArgument "set_presence" args, IsSegment text := by
  obtain ⟨v, hv⟩ := given_of_required hargs hrequired
  obtain ⟨agent, rfl⟩ := Rule.accepts_string (accepts_of_valid hargs hv hagent)
  have hpath : pathArgument "set_presence" args = some agent := by
    show textArg args "agent" = some agent
    rw [textArg, hv]
    rfl
  rw [hpath]
  simp only [Option.mem_some_iff, forall_eq']
  constructor
  · intro h
    by_contra hlost
    exact not_bridged_of_nowhere (arrives_presence_lost hv hlost) h
  · intro hsegment
    refine bridged_of_arrives ?_ (arrives_presence hv (lookup_text hargs hstatus) hsegment)
    show some (Reading.setPresence (Js.trim ((pathArgument "set_presence" args).getD "")) _) = _
    rw [hpath]
    rfl

/-- A tool without a path argument. -/
theorem segments_of_none {name : String} (h : pathArgument name args = none) :
    ∀ text ∈ pathArgument name args, IsSegment text := by
  intro text htext
  rw [h] at htext
  cases htext

/-- **The bridge**: a call of a tool that is accepted comes to the route of the tool, if and only if its
path argument is one that a path keeps. -/
theorem bridge_iff (server : Server) (authorization : Option String) {tool : Tool}
    (htool : tool ∈ tools) {args : Fields} (hargs : validArguments args tool = true) :
    Bridged server authorization tool.name args ↔
      ∀ text ∈ pathArgument tool.name args, IsSegment text := by
  simp only [tools, List.mem_cons, List.not_mem_nil, or_false] at htool
  rcases htool with rfl | rfl | rfl | rfl | rfl | rfl | rfl | rfl
  · exact iff_of_true (bridged_of_arrives rfl arrives_health) (segments_of_none rfl)
  · exact iff_of_true (bridged_of_arrives rfl arrives_post) (segments_of_none rfl)
  · refine iff_of_true (bridged_of_arrives rfl (arrives_messages hargs ?_ rfl rfl rfl rfl)) (segments_of_none rfl)
    simp [filterNames, List.lookup]
  · exact bridged_ack hargs rfl rfl rfl ⟨by decide, by decide⟩
  · exact bridged_presence hargs rfl rfl (by decide)
  · exact iff_of_true (bridged_of_arrives rfl arrives_presences) (segments_of_none rfl)
  · exact iff_of_true (bridged_of_arrives rfl (arrives_history hargs rfl rfl rfl)) (segments_of_none rfl)
  · exact iff_of_true (bridged_of_arrives rfl arrives_knock) (segments_of_none rfl)

end Tools

/-- An agent whose name has dots, slashes, blanks and percent signs. -/
theorem bridge_iff_slashes :
    Bridged Server.lenient (some "Bearer t") "set_presence" [("agent", .str "../a b%2e/")] := by
  refine (bridge_iff Server.lenient (some "Bearer t") (List.getElem_mem (l := tools) (n := 4) (by decide))
    (by decide)).2 ?_
  rintro text ⟨⟩
  exact ⟨by decide, by decide, by decide⟩

/-- A message of which the id is a dot is not acknowledged: no route is reached. -/
theorem dot_acks_nothing :
    ∃ tool ∈ tools, ∃ args, validArguments args tool = true ∧
      ¬ Bridged Server.lenient (some "Bearer t") tool.name args := by
  have hlost : arrives Server.lenient (some "Bearer t") "ack_message"
      [("agent", .str "codex"), ("message_id", .str ".")] = some ("Bearer t", none) :=
    arrives_ack_lost rfl fun h => h.2.1 rfl
  refine ⟨tools[3], List.getElem_mem _, [("agent", .str "codex"), ("message_id", .str ".")], ?_, ?_⟩
  · decide
  · exact not_bridged_of_nowhere hlost

end AgentHub.Cloud.Mcp
