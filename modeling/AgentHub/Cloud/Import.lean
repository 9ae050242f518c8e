import AgentHub.Cloud.Worker

/-!
# The importer of database exports

`import_pg_export.py` reads a CSV export of the messages of a hub, leaves out the rows on a list and
those whose text looks like a credential, and pushes the rest to the Worker in batches of 500.

A row is what `csv.DictReader` gives: texts.  The column `sensitivity` is one of the table's; no
function of the importer reads it.
-/

namespace AgentHub.Cloud

open AgentHub.Json BusLog

/-- The functions of Python's library that the importer calls. -/
structure Python where
  /-- `re.search`, for a pattern with its flags. -/
  search : String → String → Bool
  /-- `json.loads`, with numbers as `json.dumps` writes them; `none` is its error. -/
  loads : String → Option Value
  /-- `datetime.fromisoformat` of a text with an offset, in UTC as `%Y-%m-%dT%H:%M:%S.%fZ`. -/
  isoToUtc : String → Option String

namespace Python

/-- `str.isspace` for a character. -/
def isSpace (c : Char) : Bool := Text.isWhitespace c || (0x1C ≤ c.toNat && c.toNat ≤ 0x1F)

/-- `str.strip`. -/
def strip (s : String) : String :=
  String.ofList ((s.toList.dropWhile isSpace).reverse.dropWhile isSpace).reverse

end Python

/-- The names and patterns of `SECRET_PATTERNS`. -/
def secretPatterns : List (String × String) :=
  [("github-token",
    "\\b(?:ghp|gho|ghu|ghs|ghr)_[A-Za-z0-9]\x7b30,\x7d|\\bgithub_pat_[A-Za-z0-9_]\x7b40,\x7d"),
   ("aws-key", "\\bAKIA[0-9A-Z]\x7b16\x7d\\b"),
   ("slack-token", "\\bxox[abposr]-[A-Za-z0-9-]\x7b10,\x7d"),
   ("openai-anthropic-key", "\\bsk-(?:ant-)?[A-Za-z0-9_-]\x7b20,\x7d"),
   ("google-api-key", "\\bAIza[0-9A-Za-z_-]\x7b35\x7d\\b"),
   ("private-key", "-----BEGIN [A-Z ]*PRIVATE KEY-----"),
   ("jwt",
    "\\beyJ[A-Za-z0-9_-]\x7b10,\x7d\\.eyJ[A-Za-z0-9_-]\x7b10,\x7d\\.[A-Za-z0-9_-]\x7b10,\x7d"),
   ("bearer", "(?i)\\bbearer\\s+[A-Za-z0-9._~+/=-]\x7b24,\x7d"),
   ("url-credentials", "\\b[a-z][a-z0-9+.-]*://[^\\s:/@]+:[^\\s@/]\x7b6,\x7d@"),
   ("assignment",
    "(?i)\\b(?:password|passwd|secret|api[_-]?key|auth[_-]?token|access[_-]?token)\\s*[=:]\\s*" ++
      "['\"]?[^\\s'\"<>\x7b\x7d$]\x7b12,\x7d")]

variable (python : Python)

def secretReason (texts : List String) : Option String :=
  texts.findSome? fun text =>
    if text.isEmpty then none
    else (secretPatterns.find? fun pattern => python.search pattern.2 text).map Prod.fst

/-- Whether a text ends in a sign and two digits. -/
def endsInHourOffset (s : String) : Bool :=
  match s.toList.reverse with
  | d :: c :: sign :: _ => c.isDigit && d.isDigit && (sign == '+' || sign == '-')
  | _ => false

/-- The first blank of a text becomes a `T`. -/
def joinDateTime : List Char → List Char
  | [] => []
  | c :: cs => if c = ' ' then 'T' :: cs else c :: joinDateTime cs

def pgTsToUtc (value : String) : Option String :=
  let v := Python.strip value
  let v := if endsInHourOffset v then v ++ ":00" else v
  python.isoToUtc (String.ofList (joinDateTime v.toList))

def pgBool (value : String) : Bool :=
  ["t", "true", "1"].contains (String.ofList ((Python.strip value).toList.map Char.toLower))

def pgJson (value : String) (default : Value) : Option Value :=
  let value := Python.strip value
  if value.isEmpty then some default else python.loads value

/-- A row of the export. -/
structure ExportRow where
  id : String
  timestampUtc : String
  protocolVersion : String
  sender : String
  recipient : String
  topic : String
  body : String
  threadId : Option String
  tags : String
  priority : String
  requestAck : String
  replyTo : Option String
  metadata : String
  sensitivity : Option String

/-- The fields of an item, with what has been converted. -/
def itemSlots (row : ExportRow) (timestampUtc : String) (tags metadata : Value)
    (originHub originHost : String) : List (String × Option Value) :=
  [("id", some (.str row.id)),
   ("timestamp_utc", some (.str timestampUtc)),
   ("protocol_version",
     some (.str (if row.protocolVersion.isEmpty then "1.0" else row.protocolVersion))),
   ("sender", some (.str row.sender)),
   ("recipient", some (.str row.recipient)),
   ("topic", some (.str row.topic)),
   ("body", some (.str row.body)),
   ("tags", some tags),
   ("priority", some (.str (if row.priority.isEmpty then "normal" else row.priority))),
   ("request_ack", some (.bool (pgBool row.requestAck))),
   ("metadata", some metadata),
   ("origin_hub", some (.str originHub)),
   ("origin_host", some (.str originHost)),
   ("thread_id", (row.threadId.filter fun s => !s.isEmpty).map .str),
   ("reply_to", (row.replyTo.filter fun s => !s.isEmpty).map .str)]

/-- `message_item`; a text that cannot be converted is an error. -/
def messageItem (row : ExportRow) (originHub originHost : String) : Option Value := do
  let timestampUtc ← pgTsToUtc python row.timestampUtc
  let tags ← pgJson python row.tags (.arr [])
  let metadata ← pgJson python row.metadata (.obj [])
  return .obj (Fields.compact (itemSlots row timestampUtc tags metadata originHub originHost))

/-- Whether a row is left out before anything is built from it. -/
def skipped (excludedIds : List String) (row : ExportRow) : Bool :=
  excludedIds.contains row.id || (secretReason python [row.body, row.metadata, row.tags]).isSome

/-- The items of an export; one row that cannot be converted stops the import before its first
push. -/
def importItems (excludedIds : List String) (originHub originHost : String)
    (rows : List ExportRow) : Option (List Value) :=
  (rows.filter fun row => !skipped python excludedIds row).mapM fun row =>
    messageItem python row originHub originHost

/-- The body of a push of the importer, as the Worker parses it. -/
def importBody (worker : Worker) (originHub : String) (batch : List Value) : Value :=
  Js.parse worker.numbers (.obj [("origin_hub", .str originHub), ("messages", .arr batch)])

/-- `parse_tags` of the hub: what is no text is passed over. -/
def parseTags (v : Value) : List String := (v.asArray.getD []).filterMap Value.asStr

/-- The message the hub reads in the row that was exported (`row_to_message`), as far as the export
shows it. -/
def ExportRow.message (row : ExportRow) : Option Sync.Message := do
  let timestampUtc ← pgTsToUtc python row.timestampUtc
  let tags ← pgJson python row.tags (.arr [])
  let metadata ← pgJson python row.metadata (.obj [])
  return {
    id := row.id
    timestampUtc
    protocolVersion := row.protocolVersion
    fromAgent := row.sender
    toAgent := row.recipient
    topic := row.topic
    body := row.body
    threadId := row.threadId
    tags := parseTags tags
    priority := row.priority
    requestAck := pgBool row.requestAck
    replyTo := row.replyTo.filter fun s => !s.isEmpty
    metadata
    streamId := none
    clientMsgId := none
    originHub := none
    originSeq := none
    hlc := none
    sensitivity := row.sensitivity.bind Sync.Sensitivity.fromStored }

end AgentHub.Cloud
