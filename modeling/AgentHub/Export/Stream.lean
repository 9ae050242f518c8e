import AgentHub.Export.Journal
import AgentHub.Resume
import Mathlib.Logic.Relation

/-!
# The dump of the Redis stream

`export_redis` writes the entries of the message stream to a file, page by page, while the hub goes on
appending to the stream and trimming it.  A page is asked for from the last entry written, which Redis
includes, so the first entry of every later page is left out.
-/

namespace AgentHub.Export

open AgentHub.Json AgentHub.Paging
open AgentHub.Sync (StreamId)

/-! ### The stream -/

/-- An entry as the client returns it: the names and the values are bytes. -/
structure RawEntry where
  id : StreamId
  fields : List (List UInt8 × List UInt8)
  deriving DecidableEq

/-- A stream that is written to: all it has had since the export began, the oldest of which are
trimmed. -/
structure LiveStream where
  log : List RawEntry
  ascending : Ascending RawEntry.id log
  trimmed : Nat
  trimmed_le : trimmed ≤ log.length

namespace LiveStream

/-- The entries Redis has. -/
def entries (s : LiveStream) : List RawEntry := s.log.drop s.trimmed

/-- `XADD`, under an id above all others. -/
def append (s : LiveStream) (entry : RawEntry)
    (ascending : Ascending RawEntry.id (s.log ++ [entry])) : LiveStream where
  log := s.log ++ [entry]
  ascending := ascending
  trimmed := s.trimmed
  trimmed_le := by
    rw [List.length_append]
    exact s.trimmed_le.trans (Nat.le_add_right _ _)

/-- `XTRIM` of the oldest entry. -/
def trim (s : LiveStream) (h : s.trimmed < s.log.length) : LiveStream where
  log := s.log
  ascending := s.ascending
  trimmed := s.trimmed + 1
  trimmed_le := h

inductive Step : LiveStream → LiveStream → Prop where
  | append (s entry ascending) : Step s (s.append entry ascending)
  | trim (s h) : Step s (s.trim h)

/-- What the hub does to a stream between two pages. -/
def Grows : LiveStream → LiveStream → Prop := Relation.ReflTransGen Step

end LiveStream

/-! ### The lines -/

/-- An exception of the interpreter. -/
inductive Raised where
  | unicodeDecode
  | unhashable
  deriving DecidableEq

/-- A line of the file. -/
structure Record where
  streamId : StreamId
  fields : Fields
  deriving DecidableEq

section Dump

-- `base64.b64encode`, as text.
variable (b64 : List UInt8 → String)

/-- `dec` of bytes. -/
def dec (bytes : List UInt8) : Value :=
  match decodeUtf8 bytes with
  | some text => .str (String.ofList text)
  | none => .obj [("_b64", .str (b64 bytes))]

/-- `k.decode()` and `dec(v)` of a field. -/
def decodeField (field : List UInt8 × List UInt8) : Except Raised (String × Value) :=
  match decodeUtf8 field.1 with
  | some name => .ok (String.ofList name, dec b64 field.2)
  | none => .error .unicodeDecode

def record (entry : RawEntry) : Except Raised Record := do
  let fields ← entry.fields.mapM (decodeField b64)
  return ⟨entry.id, fields⟩

/-! ### The loop -/

/-- The variables of the loop and the lines of the file. -/
structure Dump where
  last : Option StreamId
  records : List Record
  n : Nat
  noId : Nat
  redisUuids : List String
  deriving DecidableEq

def Dump.start : Dump := ⟨none, [], 0, 0, []⟩

/-- The loop over a page: a line is written before its id is looked at, and only a text can be added to
the set of ids. -/
def writeEntry (d : Dump) (entry : RawEntry) : Except Raised Dump := do
  let line ← record b64 entry
  let d := { d with records := d.records ++ [line] }
  match line.fields.get "id" with
  | none => return { d with noId := d.noId + 1, n := d.n + 1 }
  | some (.str id) =>
    return { d with redisUuids := if id ∈ d.redisUuids then d.redisUuids else d.redisUuids ++ [id],
                    n := d.n + 1 }
  | some _ => throw .unhashable

/-- `count` of `xrange`. -/
def dumpPage : Nat := 5000

/-- A turn of the loop, which ends on a page that is empty without the entry written last. -/
def dumpTurn (d : Dump) (entries : List RawEntry) : Except Raised (Dump ⊕ Dump) :=
  let batch := Resume.fresh RawEntry.id dumpPage d.last entries
  match batch.getLast? with
  | none => .ok (.inr d)
  | some last => do
    let d ← batch.foldlM (writeEntry b64) d
    return .inl { d with last := some last.id }

/-- The loop, with the stream as each page finds it: what is there after every page that was written.
No result is a loop that does not end with just these pages. -/
def dumpLoop : Dump → List LiveStream → Option (Except Raised (List Dump))
  | _, [] => none
  | d, s :: rest =>
    match dumpTurn b64 d s.entries with
    | .error e => some (.error e)
    | .ok (.inr _) => if rest.isEmpty then some (.ok []) else none
    | .ok (.inl d) => (dumpLoop d rest).map fun result => result.map (d :: ·)

/-- The lines and counts the export goes on with. -/
def result (pages : List Dump) : Dump := pages.getLast?.getD Dump.start

end Dump

end AgentHub.Export
