import Mathlib.Logic.Function.Basic
import AgentHub.Machine
import AgentHub.Outbox.Journal

/-!
# Processes sharing one journal path

Any number of processes run `submit`, `flush_pending`, `rotate` and `status` against one path,
each with the scope of its own candidate list.  A `Store` has the files by inode, the inode the
path names, the lock table and the archives; a `Proc` is one call with the `Stage` it is at.  The
steps of different processes interleave freely: opening a file, taking its lock, checking that the
path still names it, loading it and moving it are separate steps.

The environment of a step (`Env`) has the clock, the identifiers drawn, what the storage does and
what the transport answers.
-/

namespace AgentHub.Outbox

open AgentHub.Json

inductive RetirePolicy where
  /-- Only a journal without retained requests. -/
  | settledOnly
  /-- Also one whose retained requests expired without an attempt. -/
  | expiredOnly
  deriving DecidableEq, Repr

/-- The calls of `outbox_client.rs`. -/
inductive Job where
  | submit (operation : Operation) (surface : ClientSurface) (arguments : Fields)
  | flushPending
  | rotate (nowMs : UInt64)
  | status

/-- What a journal file is opened for. -/
inductive Purpose where
  /-- `Journal::open` under the scope of the process; `again` after a retirement. -/
  | bind (again : Bool)
  /-- `Journal::inspect` in `retire_previous_scope`. -/
  | retire (policy : RetirePolicy) (nowMs : UInt64)
  /-- `Journal::inspect` in `status`. -/
  | status

inductive Stage where
  | start
  | opening (purpose : Purpose)
  /-- The file is open, without a lock. -/
  | opened (purpose : Purpose) (inode : Nat)
  | locked (purpose : Purpose) (inode : Nat)
  /-- Locked, and the path named this file. -/
  | identified (purpose : Purpose) (inode : Nat)
  /-- The journal is bound; `enqueued` once a submission is retained. -/
  | working (inode : Nat) (handle : Handle) (enqueued : Bool) (nowMs : UInt64)
  | inspecting (policy : RetirePolicy) (nowMs : UInt64) (inode : Nat)
      (inspection : JournalInspection)
  /-- Nothing blocks the retirement; the path is to be checked once more. -/
  | retiring (nowMs : UInt64) (inode : Nat) (originId : Uuid)
  | moving (nowMs : UInt64) (inode : Nat) (originId : Uuid)

/-- A running call under the scope of its candidate list, which its transport is built from. -/
structure Proc where
  scope : String
  job : Job
  stage : Stage

/-- A retired journal, `journal.retired-<origin>.jsonl`. -/
structure Archive where
  originId : Uuid
  inode : Nat
  nowMs : UInt64

structure Store where
  files : Nat → JournalFile := fun _ => {}
  /-- How many files were created. -/
  inodes : Nat := 0
  path : Option Nat := none
  /-- The process holding the lock of a file. -/
  locks : Nat → Option Nat := fun _ => none
  archives : List Archive := []
  procs : Nat → Option Proc := fun _ => none

structure Env where
  nowMs : UInt64
  originId : Uuid
  requestId : Uuid
  io : AppendIo
  answer : Answer
  /-- Whether time is left to try a busy journal again. -/
  retry : Bool

inductive StoreInput where
  | spawn (pid : Nat) (scope : String) (job : Job)
  | proceed (pid : Nat) (env : Env)
  /-- The process stops, or a step of it fails and it returns its error. -/
  | stop (pid : Nat)

/-- What the owner of a journal shows, with the scope it acts under and the file it has open. -/
structure StoreOutput where
  scope : String
  inode : Nat
  output : Output

namespace Store

def setProc (st : Store) (pid : Nat) (p : Proc) : Store :=
  { st with procs := Function.update st.procs pid (some p) }

def setFile (st : Store) (inode : Nat) (f : JournalFile) : Store :=
  { st with files := Function.update st.files inode f }

/-- Drop the locks of a process. -/
def release (st : Store) (pid : Nat) : Store :=
  { st with locks := fun inode => if st.locks inode = some pid then none else st.locks inode }

/-- The call returns. -/
def finish (st : Store) (pid : Nat) : Store :=
  { st.release pid with procs := Function.update st.procs pid none }

/-- Go on with the call at another stage. -/
def goto (st : Store) (pid : Nat) (p : Proc) (stage : Stage) : Store :=
  st.setProc pid { p with stage }

/-- `journal_present`, then the first opening. -/
def begin (st : Store) (pid : Nat) (p : Proc) : Store :=
  match p.job with
  | .submit _ _ _ => st.goto pid p (.opening (.bind false))
  | .flushPending =>
    if st.path = none then st.finish pid else st.goto pid p (.opening (.bind false))
  | .rotate nowMs =>
    if st.path = none then st.finish pid
    else st.goto pid p (.opening (.retire .expiredOnly nowMs))
  | .status => if st.path = none then st.finish pid else st.goto pid p (.opening .status)

/-- `outbox_private::open`: the file the path names, or a new one under it. -/
def openFile (st : Store) (pid : Nat) (p : Proc) (purpose : Purpose) : Store :=
  match st.path with
  | some inode => st.goto pid p (.opened purpose inode)
  | none =>
    { st with inodes := st.inodes + 1, path := some st.inodes }.goto pid p
      (.opened purpose st.inodes)

/-- `LockedFile::acquire`; a busy journal is tried again while time is left. -/
def lockFile (st : Store) (pid : Nat) (p : Proc) (purpose : Purpose) (inode : Nat)
    (retry : Bool) : Store :=
  match st.locks inode, purpose with
  | none, _ =>
    { st with locks := Function.update st.locks inode (some pid) }.goto pid p
      (.locked purpose inode)
  | some _, .bind _ => if retry then st.goto pid p (.opening purpose) else st.finish pid
  | some _, _ => st.finish pid

/-- `validate_identity` after locking. -/
def identify (st : Store) (pid : Nat) (p : Proc) (purpose : Purpose) (inode : Nat) : Store :=
  if st.path = some inode then st.goto pid p (.identified purpose inode) else st.finish pid

/-- The rest of `load`, and what the call makes of its result. -/
def loadFile (st : Store) (pid : Nat) (p : Proc) (purpose : Purpose) (inode : Nat) (env : Env) :
    Store :=
  match purpose with
  | .bind again =>
    match load (st.files inode) (some p.scope) env.originId env.io with
    | (.ok (journal, _), f) =>
      (st.setFile inode f).goto pid p
        (.working inode { journal, phase := .idle } false env.nowMs)
    | (.error error, f) =>
      if error = .scopeChanged ∧ again = false then
        ((st.setFile inode f).release pid).goto pid p
          (.opening (.retire .settledOnly env.nowMs))
      else (st.setFile inode f).finish pid
  | .retire policy nowMs =>
    match load (st.files inode) none env.originId env.io with
    | (.ok (journal, bound), f) =>
      (st.setFile inode f).goto pid p
        (.inspecting policy nowMs inode (inspection journal bound))
    | (.error _, f) => (st.setFile inode f).finish pid
  | .status =>
    (st.setFile inode (load (st.files inode) none env.originId env.io).2).finish pid

/-- The call goes on after `retire_previous_scope` returned. -/
def afterRetire (st : Store) (pid : Nat) (p : Proc) (rotated : Bool) : Store :=
  match p.job with
  | .submit _ _ _ => (st.release pid).goto pid p (.opening (.bind true))
  | .flushPending =>
    if rotated then st.finish pid else (st.release pid).goto pid p (.opening (.bind true))
  | .rotate _ | .status => st.finish pid

/-- The requests that keep a journal from being retired. -/
def blocking (inspection : JournalInspection) (policy : RetirePolicy) (nowMs : UInt64) :
    List ReplayRequest :=
  inspection.pending.filter fun request =>
    match policy with
    | .settledOnly => true
    | .expiredOnly => !inspection.canRetireExpired request nowMs

/-- `retire_previous_scope` up to the move. -/
def decideRetire (st : Store) (pid : Nat) (p : Proc) (policy : RetirePolicy) (nowMs : UInt64)
    (inode : Nat) (inspection : JournalInspection) : Store :=
  match inspection.destination, inspection.originId with
  | some stored, some originId =>
    if stored = p.scope then st.afterRetire pid p false
    else if blocking inspection policy nowMs ≠ [] then st.finish pid
    else if st.archives.any fun archive => archive.originId = originId then st.finish pid
    else st.goto pid p (.retiring nowMs inode originId)
  | _, _ => st.afterRetire pid p false

/-- The path's file becomes an archive. -/
def archive (st : Store) (archive : Archive) : Store :=
  { st with path := none, archives := st.archives ++ [archive] }

/-- `renameat2` with `RENAME_NOREPLACE`: whatever the path names is moved. -/
def rename (st : Store) (pid : Nat) (p : Proc) (nowMs : UInt64) (originId : Uuid) : Store :=
  match st.path with
  | none => st.finish pid
  | some inode =>
    if st.archives.any fun archive => archive.originId = originId then st.finish pid
    else (st.archive { originId, inode, nowMs }).afterRetire pid p true

/-- The call `submit_journal` or `flush_pending` makes next on its journal. -/
def nextCall (job : Job) (phase : Phase) (enqueued : Bool) (nowMs : UInt64) (env : Env)
    (io : AppendIo) : Call :=
  match phase, job, enqueued with
  | .idle, .submit operation surface arguments, false =>
    .enqueue operation surface arguments nowMs env.requestId io
  | .idle, _, _ => .flush nowMs 16
  | .scanning _, _, _ => .advance io
  | .calling _ _, _, _ => .answer env.answer
  | .answered _ _ _, _, _ => .conclude io

/-- Whether the call returns with these outputs: a refused submission, or the end of a flush. -/
def returns : List Output → Bool
  | [.enqueued (.error _)] => true
  | [.flushed _ _] => true
  | _ => false

/-- One step on the bound journal.  Every append checks the path once more. -/
def work (st : Store) (pid : Nat) (p : Proc) (inode : Nat) (handle : Handle) (enqueued : Bool)
    (nowMs : UInt64) (env : Env) : Store × List StoreOutput :=
  let io := if st.path = some inode then env.io else .refused .custody
  match handle.step (st.files inode) (nextCall p.job handle.phase enqueued nowMs env io) with
  | (handle, f, outs) =>
    let st := st.setFile inode f
    (if returns outs then st.finish pid
      else st.goto pid p (.working inode handle true nowMs),
      outs.map fun output => { scope := p.scope, inode, output })

/-- The next step of a call. -/
def proceed (st : Store) (pid : Nat) (p : Proc) (env : Env) : Store × List StoreOutput :=
  match p.stage with
  | .start => (st.begin pid p, [])
  | .opening purpose => (st.openFile pid p purpose, [])
  | .opened purpose inode => (st.lockFile pid p purpose inode env.retry, [])
  | .locked purpose inode => (st.identify pid p purpose inode, [])
  | .identified purpose inode => (st.loadFile pid p purpose inode env, [])
  | .working inode handle enqueued nowMs => st.work pid p inode handle enqueued nowMs env
  | .inspecting policy nowMs inode inspection =>
    (st.decideRetire pid p policy nowMs inode inspection, [])
  | .retiring nowMs inode originId =>
    (if st.path = some inode then st.goto pid p (.moving nowMs inode originId)
      else st.finish pid, [])
  | .moving nowMs _ originId => (st.rename pid p nowMs originId, [])

def step (st : Store) : StoreInput → Store × List StoreOutput
  | .spawn pid scope job =>
    match st.procs pid with
    | none => (st.setProc pid { scope, job, stage := .start }, [])
    | some _ => (st, [])
  | .proceed pid env =>
    match st.procs pid with
    | none => (st, [])
    | some p => st.proceed pid p env
  | .stop pid => (st.finish pid, [])

def machine : Machine Store StoreInput StoreOutput := ⟨step⟩

/-- The request identifiers offered to the steps of a run. -/
def drawnIds (is : List StoreInput) : List Uuid :=
  is.filterMap fun
    | .proceed _ env => some env.requestId
    | _ => none

end Store

end AgentHub.Outbox
