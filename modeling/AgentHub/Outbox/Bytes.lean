import AgentHub.Outbox.Journal

/-!
# The bytes of a journal

`Outbox/Journal` works on files as lists of events.  Here is the same file as `load` finds it on
disk: the lines `append` wrote, split at the newlines, parsed, compared with their digests and
only then applied.
-/

namespace AgentHub.Outbox

section Bytes

variable (sha256 : List UInt8 → Digest)

/-- The bytes of the complete records of a file. -/
def JournalFile.bytes (f : JournalFile) : List UInt8 := f.events.flatMap (encodeLine sha256)

/-- The lines of a file: none of an empty one, and none after the last newline. -/
def fileLines (bytes : List UInt8) : List (List UInt8) :=
  if bytes = [] then []
  else (if bytes.getLast? = some 10 then bytes.dropLast else bytes).splitOn 10

/-- The loop over the lines. -/
def applyLines (expected : Option String) : Loading → List (List UInt8) → Except OutboxError Loading
  | s, [] => .ok s
  | s, line :: lines => do
    let event ← decodeLine sha256 line
    let s ← applyRecord expected s event
    applyLines expected s lines

/-- `Journal::load` on the bytes of a file; an empty file is bound to `expected`. -/
def loadBytes (bytes : List UInt8) (expected : Option String) (originId : Uuid) (io : AppendIo) :
    Except OutboxError (Journal × Option String) :=
  if bytes.length > journalLimit then .error .capacity
  else if bytes ≠ [] ∧ bytes.getLast? ≠ some 10 then .error .corrupt
  else match applyLines sha256 expected (Loading.start originId) (fileLines bytes) with
    | .error error => .error error
    | .ok s =>
      if s.headerSeen then
        if s.journal.pending.length > requestLimit then .error .capacity
        else .ok (s.journal, s.bound)
      else if bytes ≠ [] then .error .corrupt
      else match expected with
        | none => .ok (s.journal, none)
        | some destination =>
          match s.journal.append {} (.header originId destination) io with
          | (.error error, _, _) => .error error
          | (.ok (), journal, _) => .ok (journal, some destination)

/-- The record `load` goes on to append: the header of an empty file. -/
def loadAppends (bytes : List UInt8) (expected : Option String) (originId : Uuid) : Option Event :=
  if bytes.length > journalLimit then none
  else if bytes ≠ [] ∧ bytes.getLast? ≠ some 10 then none
  else match applyLines sha256 expected (Loading.start originId) (fileLines bytes) with
    | .error _ => none
    | .ok s =>
      if s.headerSeen then none
      else if bytes ≠ [] then none
      else expected.map (.header originId)

/-- The bytes of a file: those of its records and, where an append was torn, a part of the record it
was writing. -/
def JournalFile.Written (f : JournalFile) (bytes : List UInt8) : Prop :=
  ∃ tail, bytes = f.bytes sha256 ++ tail ∧
    if f.torn then
      ∃ e, f.len + recordLen e ≤ journalLimit ∧ tail <+: encodeLine sha256 e ∧
        tail ≠ encodeLine sha256 e
    else tail = []

end Bytes

/-- `Journal::validate_destination`, which comes before `load`. -/
def validDestination (destination : String) : Bool :=
  !(destination.isEmpty || Text.len destination > 256 || destination.toList.any Text.isControl)

end AgentHub.Outbox
