import AgentHub.Cloud.Dates
import AgentHub.Cloud.Js

/-!
# Input validation of the Worker

The checks of `validation.ts` that a message passes on its way into the log.  A property of a
request is an `Option Value`, `none` where it is undefined; an error carries the text the caller is
given.  A call of a method that a value does not have is an error too, since the routes catch it.
-/

namespace AgentHub.Cloud

open AgentHub.Json

def maxTopicLen : Nat := 256

def maxBodyLen : Nat := 262144

def maxTagsCount : Nat := 64

def maxTagLen : Nat := 256

def maxMetadataBytes : Nat := 65536

def maxTotalMessageBytes : Nat := 400000

def maxSenderLen : Nat := 256

def maxRecipientLen : Nat := 256

def maxThreadIdLen : Nat := 256

def maxReplyToLen : Nat := 128

def maxClientMsgIdLen : Nat := 128

def maxHlcLen : Nat := 128

def maxOriginHostLen : Nat := 256

def maxOriginHubLen : Nat := 256

def maxSyncIdLen : Nat := 128

def validPriorities : List String := ["low", "normal", "high", "urgent"]

/-- A failed check. -/
abbrev Checked (α : Type) := Except String α

def require (ok : Bool) (message : String) : Checked Unit := if ok then .ok () else .error message

def validatePriority (p : Value) : Checked String :=
  match p with
  | .str s =>
    if validPriorities.contains s then .ok s
    else .error (s!"invalid priority '{s}'; must be one of: " ++ Text.join ", " validPriorities)
  | v => .error (s!"invalid priority '{Js.toText v}'; must be one of: " ++
      Text.join ", " validPriorities)

def rejectNulBytes (val name : String) : Checked Unit :=
  require (!Text.containsChar val (Char.ofNat 0)) s!"{name} must not contain NUL bytes (\\x00)"

def nonEmpty (val name : String) (maxLen : Nat) : Checked String := do
  let trimmed := Js.trim val
  require (!trimmed.isEmpty) s!"{name} must not be empty"
  require (Js.length trimmed ≤ maxLen) s!"{name} exceeds maximum length of {maxLen}"
  rejectNulBytes trimmed name
  return trimmed

/-- `nonEmpty(value ?? "", name, maxLen)`; only a string can be trimmed. -/
def requiredString (value : Option Value) (name : String) (maxLen : Nat) : Checked String :=
  match Js.given value with
  | none => nonEmpty "" name maxLen
  | some (.str s) => nonEmpty s name maxLen
  | some _ => .error "val.trim is not a function"

def validateOptionalString (value : Option Value) (name : String) (maxLen : Nat) :
    Checked (Option String) :=
  match Js.given value with
  | none => .ok none
  | some (.str s) => do
    let trimmed := Js.trim s
    if trimmed.isEmpty then return none
    require (Js.length trimmed ≤ maxLen) s!"{name} exceeds maximum length of {maxLen}"
    rejectNulBytes trimmed name
    return some trimmed
  | some _ => .error s!"{name} must be a string"

inductive Sensitivity where
  | internal
  | noOffsite
  deriving DecidableEq, Repr

def validateSensitivity (value : Option Value) : Checked Sensitivity :=
  match Js.given value with
  | none => .ok .internal
  | some (.str "internal") => .ok .internal
  | some (.str "no-offsite") => .ok .noOffsite
  | some v => .error s!"invalid sensitivity '{Js.toText v}'; expected internal|no-offsite"

/-! ### The screen for identifiers of patients -/

open Js Js.Regex in
def phiPatterns : List Regex :=
  -- social security number
  [Regex.all [.boundary, digits 3 (some 3), one (· == '-'), digits 2 (some 2), one (· == '-'),
     digits 4 (some 4), .boundary],
   -- medical record number
   Regex.all [.boundary, word "MRN", .set (fun c => c == ':' || c == '#') 0 (some 1),
     .set isSpace 0 none, digits 4 none, .boundary],
   -- date of birth label
   Regex.all [.boundary, word "DOB", .set (fun c => c == ':' || c == '#') 0 (some 1),
     .set isSpace 0 none, digits 1 (some 2), one (fun c => c == '/' || c == '-'),
     digits 1 (some 2), one (fun c => c == '/' || c == '-'), digits 2 (some 4), .boundary],
   Regex.all [.boundary, word "patient", .set isSpace 1 none, .alt (word "name") (word "id"),
     .boundary]]

def containsObviousPhi (body : String) : Bool := phiPatterns.any fun re => re.test body

def assertNoPhi (texts : List (Option String)) : Checked Unit :=
  require (texts.all fun text => (text.filter fun s => !s.isEmpty).all fun s => !containsObviousPhi s)
    ("content matches an obvious PHI pattern (SSN/MRN/DOB/patient-identifier) and was rejected; " ++
      "the bus must never carry PHI")

/-! ### Tags, metadata and sizes -/

/-- The elements of an array of strings, from the given position on. -/
def stringItems (fieldName : String) (maxItemLen : Nat) : Nat → List Value → Checked (List String)
  | _, [] => .ok []
  | i, .str s :: vs => do
    require (Js.length s ≤ maxItemLen) s!"{fieldName}[{i}] exceeds maximum length of {maxItemLen}"
    rejectNulBytes s s!"{fieldName}[{i}]"
    let rest ← stringItems fieldName maxItemLen (i + 1) vs
    return s :: rest
  | i, _ :: _ => .error s!"{fieldName}[{i}] must be a string"

def validateStringArray (value : Option Value) (fieldName : String) (maxCount maxItemLen : Nat) :
    Checked (List String) :=
  match Js.given value with
  | none => .ok []
  | some (.arr items) => do
    require (items.length ≤ maxCount) s!"{fieldName} exceeds maximum count of {maxCount}"
    stringItems fieldName maxItemLen 0 items
  | some _ => .error s!"{fieldName} must be an array of strings"

def validateTags (value : Option Value) : Checked (List String) :=
  validateStringArray value "tags" maxTagsCount maxTagLen

def validateMetadataSize (metadata : Option Value) : Checked Nat :=
  match Js.given metadata with
  | none => .ok 0
  | some v => do
    let size := Text.len (Js.stringify v)
    require (size ≤ maxMetadataBytes) s!"metadata exceeds maximum size of {maxMetadataBytes} bytes"
    return size

def validateTotalSize (parts : List String) (metadataBytes : Nat) : Checked Unit :=
  require (metadataBytes + (parts.map Js.length).sum ≤ maxTotalMessageBytes)
    s!"message exceeds maximum total size of {maxTotalMessageBytes} bytes"

/-! ### Timestamps, versions and numbers -/

/-- A year of milliseconds. -/
def yearMs : Int := 365 * 24 * 60 * 60 * 1000

def validateTimestampUtc (dates : Dates) (now : Int) (ts : String) : Checked String :=
  match dates.parseTimestampUtcMs ts with
  | none => .error "timestamp_utc is not a valid ISO-8601 UTC timestamp"
  | some ms => do
    require (ms ≤ now + yearMs) "timestamp_utc is too far in the future"
    return formatTimestampUtc ms

/-- Dotted groups of digits. -/
def isDottedVersion : List Char → Bool
  | [] => false
  | c :: cs => c.isDigit && go cs
where
  /-- After a digit. -/
  go : List Char → Bool
    | [] => true
    | [c] => c.isDigit
    | c :: d :: cs => if c = '.' then d.isDigit && go cs else c.isDigit && go (d :: cs)

def validateProtocolVersion (v : String) : Checked String := do
  require (isDottedVersion v.toList) "protocol_version must look like a dotted version number"
  return v

/-- `coerceOptionalInt` with a least value of zero. -/
def coerceOptionalInt (value : Option Value) (name : String) : Checked (Option Value) :=
  match Js.given value with
  | none => .ok none
  | some v => do
    require (Js.isInteger v) s!"{name} must be an integer"
    return some (if Js.isNegative v then .int 0 else v)

/-! ### The shared core -/

structure CoreMessageFields where
  sender : String
  recipient : String
  topic : String
  body : String
  tags : List String
  priority : String
  metadata : Value
  threadId : Option String
  replyTo : Option String
  clientMsgId : Option String
  hlc : Option String

/-- The checks of every write path.  What passes is internal. -/
def validateMessageCore (req : Value) : Checked CoreMessageFields := do
  let priority ← validatePriority ((Js.given (req.field? "priority")).getD (.str "normal"))
  let sender ← validateOptionalString (req.field? "sender") "sender" maxSenderLen
  let sender := sender.getD ""
  let recipient ← requiredString (req.field? "recipient") "recipient" maxRecipientLen
  let topic ← requiredString (req.field? "topic") "topic" maxTopicLen
  let body ← requiredString (req.field? "body") "body" maxBodyLen
  let tags ← validateTags (req.field? "tags")
  let threadId ← validateOptionalString (req.field? "thread_id") "thread_id" maxThreadIdLen
  let replyTo ← validateOptionalString (req.field? "reply_to") "reply_to" maxReplyToLen
  let clientMsgId ←
    validateOptionalString (req.field? "client_msg_id") "client_msg_id" maxClientMsgIdLen
  let hlc ← validateOptionalString (req.field? "hlc") "hlc" maxHlcLen
  let sensitivity ← validateSensitivity (req.field? "sensitivity")
  require (sensitivity ≠ .noOffsite)
    ("sensitivity=no-offsite messages are never accepted by the cloud tier " ++
      "(post them to the on-site hub only)")
  let metadataBytes ← validateMetadataSize (req.field? "metadata")
  validateTotalSize
    ([body, sender, recipient, topic] ++ [threadId, replyTo, clientMsgId, hlc].filterMap id ++ tags)
    metadataBytes
  assertNoPhi
    [some body, (req.field? "metadata").map Js.stringify, some (Text.join " " tags), some topic,
      threadId, some recipient]
  return {
    sender, recipient, topic, body, tags, priority, threadId, replyTo, clientMsgId, hlc
    metadata := (Js.given (req.field? "metadata")).getD (.obj []) }

end AgentHub.Cloud
