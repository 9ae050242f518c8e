import AgentHub.Export.Journal
import AgentHub.Text

/-!
# The minimal encoding

`minimizeValue` leaves out defaults and gives the names of the fields of a message their short forms,
in every object of a value.  The tags of an object are shortened too.
-/

namespace AgentHub.Output

open AgentHub.Json

/-! ### Tags -/

/-- `str::strip_prefix`. -/
def stripPrefix (front text : List Char) : Option (List Char) :=
  if front.isPrefixOf text then some (text.drop front.length) else none

/-- The long forms of tags and their short forms, in the order they are tried. -/
def tagForms : List (List Char × List Char) :=
  [("repo:".toList, "r:".toList), ("session:".toList, "s:".toList),
   ("thread_id:".toList, "t:".toList), ("severity:".toList, "!".toList)]

/-- `shorten_tag`. -/
def shortenTag (tag : String) : String :=
  match tagForms.findSome? fun form => (stripPrefix form.1 tag.toList).map (form.2 ++ ·) with
  | some short => String.ofList short
  | none => tag

/-! ### Values -/

/-- The fields that are left out. -/
def dropped (k : String) (v : Value) : Bool :=
  k = "protocol_version" || k = "stream_id" ||
    (k = "tags" && v = .arr []) ||
    (k = "metadata" && v = .obj []) ||
    (k = "thread_id" && v = .null) ||
    (k = "request_ack" && v = .bool false) ||
    (k = "priority" && v = .str "normal")

/-- The names that have a short form. -/
def shortForms : List (String × String) :=
  [("timestamp_utc", "ts"), ("request_ack", "ack"), ("from", "f"), ("to", "t"), ("topic", "tp"),
   ("body", "b"), ("priority", "p"), ("reply_to", "rt"), ("thread_id", "tid"), ("tags", "tg"),
   ("metadata", "m")]

def shortKey (k : String) : String := (shortForms.lookup k).getD k

mutual

/-- `minimize_value`. -/
def minimizeValue : Value → Value
  | .obj map => .obj (minimizeMap map [])
  | .arr items => .arr (minimizeItems items)
  | other => other

/-- The loop over the fields of an object. -/
def minimizeMap : Fields → Fields → Fields
  | [], result => result
  | (k, v) :: map, result =>
    if dropped k v then minimizeMap map result
    else
      minimizeMap map (Fields.insert result (shortKey k)
        (match v with
        | .arr items => .arr (if k = "tags" then shortenTagItems items else minimizeItems items)
        | v => minimizeValue v))

def minimizeItems : List Value → List Value
  | [] => []
  | v :: items => minimizeValue v :: minimizeItems items

/-- `shorten_tags_value`. -/
def shortenTagItems : List Value → List Value
  | [] => []
  | v :: items =>
    (match v with
    | .str tag => .str (shortenTag tag)
    | v => minimizeValue v) :: shortenTagItems items

end

/-- `serde_json::to_value` of a message. -/
def messageValue (m : Sync.Message) : Value := .obj (Fields.ofPairs (Export.messageFields m))

end AgentHub.Output
