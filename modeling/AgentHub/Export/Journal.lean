import AgentHub.Machine
import AgentHub.Sync.Message

/-!
# The journal of messages

`export_journal` appends messages to a file, one document to a line, and leaves out those whose id is
on a line already.  It may be cut off after any byte it writes.
-/

namespace AgentHub.Export

open AgentHub.Json

/-- The fields of a message as the structure is written, with those of cloud sync. -/
def messageFields (m : Sync.Message) : Fields :=
  m.toMessage.fields ++ Fields.compact
    [("origin_seq", m.originSeq.map fun n => .int n.toNat),
     ("hlc", m.hlc.map .str),
     ("sensitivity", m.sensitivity.map fun s => .str s.asStr)]

/-- The line of a message, without its newline. -/
def journalLine (m : Sync.Message) : List UInt8 := toVec (.obj (messageFields m))

/-- A line without the carriage return before its newline. -/
def stripReturn (line : List UInt8) : List UInt8 :=
  if line.getLast? = some 13 then line.dropLast else line

/-- The lines of a file that have their newline. -/
def wholeLines (bytes : List UInt8) : List (List UInt8) := ((bytes.splitOn 10).dropLast).map stripReturn

/-- `BufRead::lines`: the last line need not have its newline. -/
def bufLines (bytes : List UInt8) : List (List UInt8) :=
  wholeLines bytes ++ ((bytes.splitOn 10).getLast?.filter (· ≠ [])).toList

def decodeUtf8 (bytes : List UInt8) : Option (List Char) :=
  (bytes.toByteArray.utf8Decode?).map Array.toList

/-- `map_while(Result::ok)`: the texts up to the first line that is not UTF-8. -/
def textLines : List (List UInt8) → List (List Char)
  | [] => []
  | line :: lines =>
    match decodeUtf8 line with
    | none => []
    | some text => text :: textLines lines

section Ids

variable (d : Doubles)

/-- The id of a line that is a document and has one. -/
def lineId (text : List Char) : Option String :=
  (readDocument d text).bind fun msg => (msg.field? "id").bind Value.asStr

/-- `load_existing_ids`. -/
def loadExistingIds (bytes : List UInt8) : List String :=
  (textLines (bufLines bytes)).filterMap (lineId d)

/-- The messages `export_journal` appends. -/
def newMessages (bytes : List UInt8) (messages : List Sync.Message) : List Sync.Message :=
  messages.filter fun m => m.id ∉ loadExistingIds d bytes

/-- What it writes. -/
def appended (bytes : List UInt8) (messages : List Sync.Message) : List UInt8 :=
  (newMessages d bytes messages).flatMap fun m => journalLine m ++ [10]

/-- A call, and after how many bytes of what it writes it is cut off, if it is.  The metadata of a
message is a value of `serde_json`, whose numbers are in the range that is read. -/
structure Call where
  messages : List Sync.Message
  cut : Option Nat
  valued : ∀ m ∈ messages, (document d m.metadata).isSome

/-- What a call that is not cut off returns: how many messages it wrote. -/
abbrev Returned := Nat

/-- The file as the calls change it. -/
def machine : Machine (List UInt8) (Call d) Returned where
  step bytes call :=
    match call.cut with
    | none => (bytes ++ appended d bytes call.messages, [(newMessages d bytes call.messages).length])
    | some n => (bytes ++ (appended d bytes call.messages).take n, [])

/-- The ids on the whole lines of a file. -/
def wholeIds (bytes : List UInt8) : List String :=
  (wholeLines bytes).filterMap fun line => (decodeUtf8 line).bind (lineId d)

end Ids

end AgentHub.Export
