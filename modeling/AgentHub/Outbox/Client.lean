import AgentHub.Machine
import AgentHub.Outbox.Journal

/-!
# One client and its journal

`Client` is a journal file with the process that has it open, if any.  Its inputs are the calls of
that process, its end at any point (`crash`) and the next opening of the file; whatever the storage
and the transport answer is part of the inputs.
-/

namespace AgentHub.Outbox

/-- A journal file and the handle a running process has on it. -/
structure Client where
  file : JournalFile := {}
  handle : Option Handle := none

inductive ClientInput where
  /-- `Journal::open`, with the identifier drawn for a new journal. -/
  | reopen (originId : Uuid) (io : AppendIo)
  /-- The process stops. -/
  | crash
  | call (call : Call)

namespace Client

def step (destination : String) (c : Client) : ClientInput → Client × List Output
  | .crash => ({ c with handle := none }, [])
  | .reopen originId io =>
    match c.handle with
    | some _ => (c, [])
    | none =>
      match load c.file (some destination) originId io with
      | (.ok (journal, _), file) => ({ file, handle := some { journal, phase := .idle } }, [])
      | (.error _, file) => ({ file, handle := none }, [])
  | .call call =>
    match c.handle with
    | none => (c, [])
    | some handle =>
      match handle.step c.file call with
      | (handle, file, outs) => ({ file, handle := some handle }, outs)

/-- The client whose transport belongs to `destination`. -/
def machine (destination : String) : Machine Client ClientInput Output := ⟨step destination⟩

end Client

/-- The request identifiers drawn by the enqueue calls of a run. -/
def drawnIds (inputs : List ClientInput) : List Uuid :=
  inputs.filterMap fun
    | .call (.enqueue _ _ _ _ requestId _) => some requestId
    | _ => none

end AgentHub.Outbox
