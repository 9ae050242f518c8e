import AgentHub.Hub.Equiv.Compare
import AgentHub.Hub.Equiv.Script

/-!
# Claims are dispatched once and answered from the live authority

* `dispatch_once`: however often a claim is replayed, and wherever the calls of `accept` crash, the
  claim authority is asked at most once for its request.
* `claim_answer_live`: a result is answered only while the claims of the resource hold exactly it
  and neither the request nor the lease has run out.
-/

namespace AgentHub.Hub

open AgentHub.Json AgentHub.Outbox

variable {platform : Platform} {settings : Settings}

/-! ### The memo of a claim -/

/-- The time until which the memo of a claim is kept. -/
def memoDeadline (e : ReplayEnvelope) : Nat := e.request.expiresMs.toNat + memoRetentionMs

/-- The deadline the script computes from its clock. -/
theorem memoDeadline_eq {e : ReplayEnvelope} {now : Nat} (h : now < e.request.expiresMs.toNat) :
    now + (e.request.expiresMs.toNat - now + memoRetentionMs) = memoDeadline e := by
  unfold memoDeadline
  omega

/-- The claim has been admitted: its memo is set, though it may have passed its deadline. -/
def Remembered (e : ReplayEnvelope) (db : Redis) : Prop :=
  ∃ memo, db.memos e.request.requestId = some ⟨memo, some (memoDeadline e)⟩

theorem Planned.effect_claim {e : ReplayEnvelope} {draw : Draw} {sse : Bool} {input : ScriptInput}
    (h : Planned platform settings e draw sse input) (hclaim : e.request.operation = .claimRequest) :
    input.effect = .claim (claimsKey (text e.request.arguments "resource" ""))
      (text e.request.arguments "agent" "") := by
  have heffect := h.effect
  simp only [planEffect, hclaim] at heffect
  exact claimPlan_ok heffect

/-- A claim the script takes up is not expired. -/
theorem Planned.live {e : ReplayEnvelope} {draw : Draw} {sse : Bool} {input : ScriptInput}
    (h : Planned platform settings e draw sse input) (hclaim : e.request.operation = .claimRequest)
    {now : Nat} (hlive : input.expiresMs = 0 ∨ now < input.expiresMs) :
    now < e.request.expiresMs.toNat := by
  have hlifetime := ReplayRequest.lifetime_of_validate h.valid (by rw [hclaim]; rfl)
  rw [h.expiresMs] at hlive
  omega

/-- Every memo that is set for a claim has one deadline. -/
theorem TaskStep.memo_deadline {task : Task} {db : Redis} {now : Nat}
    {result : Progress × List Write} (h : TaskStep platform settings task db now result)
    (hclaim : task.envelope.request.operation = .claimRequest) {id : Uuid} {memo : Memo}
    {deadline : Option Nat} (hmem : Write.setMemo id memo deadline ∈ result.2) :
    deadline = some (memoDeadline task.envelope) := by
  cases h.source with
  | silent hnil =>
    rw [hnil] at hmem
    cases hmem
  | script hphase hplan hrun hpart =>
    have hset := hpart.subset hmem
    cases hrun with
    | applied hmemo hlive =>
      have hnow := hplan.live hclaim hlive
      simp only [applyEffect, hplan.effect_claim hclaim, saveMemo, List.mem_singleton,
        Write.setMemo.injEq, hplan.expiresMs] at hset
      rw [hset.2.2, memoDeadline_eq hnow]
    | _ => simp at hset
  | finish hphase hinput hrun hpart =>
    obtain ⟨_, -, rfl⟩ := finishInput_eq hinput
    exact (hrun.memo_eq (hpart.subset hmem)).2.2

/-- An admitted claim stays so. -/
theorem Remembered.step {e : ReplayEnvelope} {db : Redis} (h : Remembered e db)
    (hclaim : e.request.operation = .claimRequest) {task : Task}
    (hsame : task.envelope.request.requestId = e.request.requestId → task.envelope = e) {now : Nat}
    {result : Progress × List Write} (hstep : TaskStep platform settings task db now result) :
    Remembered e (db.writes result.2) := by
  rcases db.memos_writes result.2 e.request.requestId with hkept | ⟨memo, deadline, hmem, hset⟩
  · rw [Remembered, hkept]
    exact h
  · have henvelope := hsame (hstep.memo_id hmem).symm
    have hdeadline := hstep.memo_deadline (henvelope ▸ hclaim) hmem
    exact ⟨memo, by rw [hset, hdeadline, henvelope]⟩

theorem Command.memos_writes (command : Command) (db : Redis) (now : Nat) (id : Uuid) :
    (db.writes (command.writes db now)).memos id = db.memos id := by
  cases command with
  | post entry =>
    simp only [Command.writes]
    split <;> rfl
  | _ => rfl

/-! ### Admission -/

/-- The call stands between its admission and the dispatch of the claim. -/
def Admitted (tasks : Nat → Option Task) (id : Uuid) (i : Nat) : Prop :=
  ∃ task, tasks i = some task ∧ task.phase = .admitted ∧ task.envelope.request.requestId = id

theorem Admitted.of_update {tasks : Nat → Option Task} {id : Uuid} {i j : Nat} {slot : Option Task}
    (h : Admitted (Function.update tasks i slot) id j) :
    (j = i ∧ ∃ task, slot = some task ∧ task.phase = .admitted ∧
      task.envelope.request.requestId = id) ∨ (j ≠ i ∧ Admitted tasks id j) := by
  by_cases hj : j = i
  · subst hj
    rw [Admitted, Function.update_self] at h
    exact .inl ⟨rfl, h⟩
  · rw [Admitted, Function.update_of_ne hj] at h
    exact .inr ⟨hj, h⟩

/-- The script admits a claim only while no memo of it is kept. -/
theorem ScriptRun.admission {db : Redis} {now : Nat} {input : ScriptInput} {streamId : String}
    {run : ScriptReply × List Write} (h : ScriptRun db now input streamId run)
    (hreply : run.1 = .claimAdmission) :
    readKey (db.memos input.requestId) now = none ∧
      (input.expiresMs = 0 ∨ now < input.expiresMs) ∧ run = applyEffect db now input streamId := by
  cases h with
  | cached hmemo => exact absurd hreply (cachedReply_ne_admission _ _ _ _)
  | expired => simp at hreply
  | refused hmemo hlive hrefusal => rcases hrefusal with rfl | rfl <;> cases hreply
  | applied hmemo hlive => exact ⟨hmemo, hlive, rfl⟩

/-- A claim that was admitted once is not admitted again, even after its memo is gone: by then it
has expired. -/
theorem not_remembered_of_admission {e : ReplayEnvelope}
    (hclaim : e.request.operation = .claimRequest) {draw : Draw} {sse : Bool} {input : ScriptInput}
    (hplan : Planned platform settings e draw sse input) {db : Redis} {now : Nat}
    {streamId : String} {run : ScriptReply × List Write}
    (hrun : ScriptRun db now input streamId run) (hreply : run.1 = .claimAdmission) :
    ¬ Remembered e db ∧ Remembered e (db.writes run.2) := by
  obtain ⟨hmemo, hlive, rfl⟩ := hrun.admission hreply
  have hnow := hplan.live hclaim hlive
  constructor
  · rintro ⟨memo, hset⟩
    rw [hplan.requestId, hset] at hmemo
    have hgone := lt_of_readKey_eq_none hmemo
    unfold memoDeadline at hgone
    omega
  · refine ⟨⟨input.fingerprint, .pending⟩, ?_⟩
    simp only [applyEffect, hplan.effect_claim hclaim, saveMemo, Redis.writes_cons,
      Redis.writes_nil, Redis.write, hplan.requestId, hplan.expiresMs, Function.update_self,
      memoDeadline_eq hnow]

/-! ### Dispatch -/

def HubOutput.dispatches (id : Uuid) : HubOutput → Bool
  | .dispatched requestId => requestId = id
  | .answered _ _ => false

/-- How often the claim authority was asked for a request. -/
def dispatchCount (id : Uuid) (outs : List HubOutput) : Nat :=
  outs.countP (HubOutput.dispatches id)

/-- At most one call may still dispatch the claim, none once it is dispatched, and either leaves the
claim remembered. -/
structure GrantInv (e : ReplayEnvelope) (h : HubState) (outs : List HubOutput) : Prop where
  same : ∀ i task, h.tasks i = some task →
    task.envelope.request.requestId = e.request.requestId → task.envelope = e
  unique : ∀ i j, Admitted h.tasks e.request.requestId i →
    Admitted h.tasks e.request.requestId j → i = j
  spent : ∀ i, Admitted h.tasks e.request.requestId i →
    dispatchCount e.request.requestId outs = 0
  once : dispatchCount e.request.requestId outs ≤ 1
  remembered : (∃ i, Admitted h.tasks e.request.requestId i) ∨
    dispatchCount e.request.requestId outs = 1 → Remembered e h.db

namespace GrantInv

variable {e : ReplayEnvelope} {h h' : HubState} {outs : List HubOutput}

theorem init (e : ReplayEnvelope) : GrantInv e {} [] where
  same := by simp
  unique := by simp [Admitted]
  spent := by simp [Admitted]
  once := by simp [dispatchCount]
  remembered := by simp [Admitted, dispatchCount]

/-- A step that admits nothing and dispatches nothing. -/
theorem quiet (hinv : GrantInv e h outs) {more : List HubOutput}
    (hsame : ∀ i task, h'.tasks i = some task →
      task.envelope.request.requestId = e.request.requestId → task.envelope = e)
    (hadmitted : ∀ i, Admitted h'.tasks e.request.requestId i →
      Admitted h.tasks e.request.requestId i)
    (hmemo : Remembered e h.db → Remembered e h'.db)
    (hmore : dispatchCount e.request.requestId more = 0) : GrantInv e h' (outs ++ more) := by
  have hcount : dispatchCount e.request.requestId (outs ++ more) =
      dispatchCount e.request.requestId outs := by
    rw [dispatchCount, List.countP_append]
    exact Nat.add_eq_left.mpr hmore
  refine ⟨hsame, ?_, ?_, by rw [hcount]; exact hinv.once, ?_⟩
  · intro i j hi hj
    exact hinv.unique i j (hadmitted i hi) (hadmitted j hj)
  · intro i hi
    rw [hcount]
    exact hinv.spent i (hadmitted i hi)
  · rw [hcount]
    rintro (⟨i, hi⟩ | hone)
    · exact hmemo (hinv.remembered (.inl ⟨i, hadmitted i hi⟩))
    · exact hmemo (hinv.remembered (.inr hone))

/-- The envelopes of the calls after one of them has moved on. -/
theorem same_update (hinv : GrantInv e h outs) {i : Nat} {task : Task}
    (htask : h.tasks i = some task) (phase : TaskPhase) (j : Nat) (task' : Task)
    (htask' : Function.update h.tasks i (some { task with phase }) j = some task')
    (hid : task'.envelope.request.requestId = e.request.requestId) : task'.envelope = e := by
  by_cases hj : j = i
  · subst hj
    rw [Function.update_self, Option.some.injEq] at htask'
    subst htask'
    exact hinv.same j task htask hid
  · rw [Function.update_of_ne hj] at htask'
    exact hinv.same j task' htask' hid

/-- The envelopes of the calls after one of them is gone. -/
theorem same_remove (hinv : GrantInv e h outs) (i j : Nat) (task : Task)
    (htask : Function.update h.tasks i none j = some task)
    (hid : task.envelope.request.requestId = e.request.requestId) : task.envelope = e := by
  by_cases hj : j = i
  · subst hj
    simp at htask
  · rw [Function.update_of_ne hj] at htask
    exact hinv.same j task htask hid

/-- A call that does not stand before its dispatch, in the place of one that did or did not. -/
theorem admitted_update {i : Nat} {slot : Option Task}
    (hslot : ∀ task ∈ slot, task.phase ≠ .admitted) (j : Nat)
    (hj : Admitted (Function.update h.tasks i slot) e.request.requestId j) :
    j ≠ i ∧ Admitted h.tasks e.request.requestId j := by
  rcases hj.of_update with ⟨rfl, task, htask, hphase, -⟩ | hj
  · exact absurd hphase (hslot task htask)
  · exact hj

/-- The script admits the claim. -/
theorem admission (hinv : GrantInv e h outs) (hclaim : e.request.operation = .claimRequest)
    {i now : Nat} {task : Task} (htask : h.tasks i = some task)
    (hid : task.envelope.request.requestId = e.request.requestId) {sse : Bool} {draw : Draw}
    {input : ScriptInput} (hplan : Planned platform settings task.envelope draw sse input)
    {streamId : String} {run : ScriptReply × List Write}
    (hrun : ScriptRun h.db now input streamId run) (hreply : run.1 = .claimAdmission) :
    GrantInv e
      { db := h.db.writes run.2
        now
        tasks := Function.update h.tasks i (some { task with phase := .admitted }) } outs := by
  have henvelope := hinv.same i task htask hid
  obtain ⟨hnew, hset⟩ := not_remembered_of_admission hclaim (henvelope ▸ hplan) hrun hreply
  have hnone : ∀ j, ¬ Admitted h.tasks e.request.requestId j :=
    fun j hj => hnew (hinv.remembered (.inl ⟨j, hj⟩))
  have hzero : dispatchCount e.request.requestId outs = 0 := by
    have hne : dispatchCount e.request.requestId outs ≠ 1 :=
      fun hone => hnew (hinv.remembered (.inr hone))
    have hle := hinv.once
    omega
  -- The only call that stands before its dispatch is the one just admitted.
  have honly : ∀ j, Admitted (Function.update h.tasks i (some { task with phase := .admitted }))
      e.request.requestId j → j = i := by
    intro j hj
    rcases hj.of_update with ⟨rfl, -⟩ | ⟨-, hj⟩
    · rfl
    · exact absurd hj (hnone j)
  refine ⟨hinv.same_update htask .admitted, ?_, fun _ _ => hzero, by omega, fun _ => hset⟩
  intro j k hj hk
  rw [honly j hj, honly k hk]

/-- The admitted call dispatches the claim. -/
theorem dispatch (hinv : GrantInv e h outs) {i now : Nat} {task : Task}
    (htask : h.tasks i = some task) (hphase : task.phase = .admitted)
    (hid : task.envelope.request.requestId = e.request.requestId) (remaining : Nat) :
    GrantInv e
      { h with
        now
        tasks := Function.update h.tasks i (some { task with phase := .dispatching remaining }) }
      (outs ++ [.dispatched task.envelope.request.requestId]) := by
  have hadmitted : Admitted h.tasks e.request.requestId i := ⟨task, htask, hphase, hid⟩
  -- the dispatch is the first: no task of the request had been dispatched
  have hcount : dispatchCount e.request.requestId
      (outs ++ [.dispatched task.envelope.request.requestId]) = 1 := by
    have hzero := hinv.spent i hadmitted
    unfold dispatchCount at hzero ⊢
    rw [List.countP_append, hzero]
    simp [HubOutput.dispatches, hid]
  -- no other task of the request was admitted, and this one has left the phase
  have hnone : ∀ j, ¬ Admitted
      (Function.update h.tasks i (some { task with phase := .dispatching remaining }))
      e.request.requestId j := by
    intro j hj
    obtain ⟨hne, hj⟩ := admitted_update (by simp) j hj
    exact hne (hinv.unique j i hj hadmitted)
  refine ⟨hinv.same_update htask _, ?_, ?_, hcount.le, ?_⟩
  · intro j k hj
    exact absurd hj (hnone j)
  · intro j hj
    exact absurd hj (hnone j)
  · intro _
    exact hinv.remembered (.inl ⟨i, hadmitted⟩)

/-- A call that moves on without dispatching, to a phase that will not dispatch the claim. -/
theorem move (hinv : GrantInv e h outs) (hclaim : e.request.operation = .claimRequest)
    {i now : Nat} {task : Task} (htask : h.tasks i = some task) {phase : TaskPhase}
    {writes : List Write} {more : List HubOutput}
    (hstep : TaskStep platform settings task h.db now (.next phase more, writes))
    (hphase : phase = .admitted → task.envelope.request.requestId ≠ e.request.requestId)
    (hmore : dispatchCount e.request.requestId more = 0) :
    GrantInv e
      { db := h.db.writes writes
        now
        tasks := Function.update h.tasks i (some { task with phase }) } (outs ++ more) := by
  refine hinv.quiet (hinv.same_update htask phase) ?_ ?_ hmore
  · intro j hj
    rcases hj.of_update with ⟨rfl, task', htask', hphase', hid'⟩ | ⟨-, hj⟩
    · simp only [Option.some.injEq] at htask'
      subst htask'
      exact absurd hid' (hphase hphase')
    · exact hj
  · exact fun hr => hr.step hclaim (hinv.same i task htask) hstep

theorem step (hinv : GrantInv e h outs) (hclaim : e.request.operation = .claimRequest)
    (input : HubInput)
    (haccept : ∀ i envelope sse, input = .accept i envelope sse →
      envelope.request.requestId = e.request.requestId → envelope = e) :
    GrantInv e (h.step platform settings input).1 (outs ++ (h.step platform settings input).2) := by
  have hstep := h.step_sound platform settings input
  revert hstep
  generalize h.step platform settings input = result
  intro hstep
  cases hstep with
  | idle => exact hinv.quiet hinv.same (fun _ hj => hj) id rfl
  | @accepted i envelope sse hfree =>
    refine hinv.quiet ?_ ?_ id rfl
    · intro j task htask hid
      by_cases hj : j = i
      · subst hj
        simp only [Function.update_self, Option.some.injEq] at htask
        subst htask
        exact haccept j envelope sse rfl hid
      · simp only [Function.update_of_ne hj] at htask
        exact hinv.same j task htask hid
    · intro j hj
      exact (admitted_update (by simp) j hj).2
  | @stopped i =>
    refine hinv.quiet (hinv.same_remove i) ?_ id rfl
    intro j hj
    exact (admitted_update (by simp) j hj).2
  | commanded hnow =>
    -- the commands of other clients write no memo
    refine hinv.quiet hinv.same (fun _ hj => hj) ?_ rfl
    rintro ⟨memo, hmemo⟩
    exact ⟨memo, by rw [Command.memos_writes, hmemo]⟩
  | @answered i t now io task result writes hnow htask hstep =>
    refine hinv.quiet (hinv.same_remove i) ?_ ?_ rfl
    · intro j hj
      exact (admitted_update (by simp) j hj).2
    · exact fun hr => hr.step hclaim (hinv.same i task htask) hstep
  | @moved i t now io task phase more writes hnow htask hstep =>
    by_cases hid : task.envelope.request.requestId = e.request.requestId
    · -- only here does a task of the request itself move
      cases hstep with
      | admitted hphase hplan hrun hreply =>
        rw [List.append_nil]
        exact hinv.admission hclaim htask hid hplan hrun hreply
      | dispatched hphase => exact hinv.dispatch htask hphase hid _
      | stored hphase hplan hrun hreply hresponse hoperation =>
        rw [hinv.same i task htask hid] at hoperation
        exact absurd hclaim hoperation
      | lapsed hphase =>
        have hlapsed : TaskStep platform settings task h.db now
            (.next (.finishing .superseded) [], []) := .lapsed hphase
        exact hinv.move hclaim htask hlapsed (by simp) rfl
      | @claimed remaining c hphase hlifetime =>
        have hclaimed : TaskStep platform settings task h.db now
            (.next (.finishing (.claim c)) [], []) := .claimed hphase hlifetime
        exact hinv.move hclaim htask hclaimed (by simp) rfl
    · -- a task of another request dispatches nothing of this one
      refine hinv.move hclaim htask hstep (fun _ => hid) ?_
      cases hstep <;> simp [dispatchCount, HubOutput.dispatches, hid]

end GrantInv

/-- **A replayed claim is dispatched at most once.**  The calls of `accept` for the request all carry
the same envelope; everything else about the run is arbitrary: how often and when they are called,
where they stop, which memo keys have expired, and what happens to the claims meanwhile. -/
theorem dispatch_once (platform : Platform) (settings : Settings) (e : ReplayEnvelope)
    (hclaim : e.request.operation = .claimRequest) (is : List HubInput)
    (hsame : ∀ i envelope sse, HubInput.accept i envelope sse ∈ is →
      envelope.request.requestId = e.request.requestId → envelope = e) :
    dispatchCount e.request.requestId
      ((HubState.machine platform settings).exec {} is).2 ≤ 1 := by
  have hinv : (∀ i envelope sse, HubInput.accept i envelope sse ∈ is →
      envelope.request.requestId = e.request.requestId → envelope = e) →
      GrantInv e ((HubState.machine platform settings).exec {} is).1
        ((HubState.machine platform settings).exec {} is).2 := by
    refine Machine.exec_induction (HubState.machine platform settings)
      (P := fun is h outs => (∀ i envelope sse, HubInput.accept i envelope sse ∈ is →
        envelope.request.requestId = e.request.requestId → envelope = e) → GrantInv e h outs)
      (fun _ => GrantInv.init e) ?_ is
    intro is h outs input ih hsame
    refine (ih fun i envelope sse hmem => hsame i envelope sse (List.mem_append_left _ hmem)).step
      hclaim input ?_
    rintro i envelope sse rfl hid
    exact hsame i envelope sse (by simp) hid
  exact (hinv hsame).once

/-- Library functions for concrete runs. -/
def samplePlatform : Platform where
  sha256 _ := ⟨List.replicate 32 0, by simp⟩
  lz4CompressBody body := body
  formatMillis ms := if ms = 1767225600000 then some "2026-01-01T00:00:00.000000Z" else none
  parseRfc3339 text := if text = "2026-01-01T01:00:00.000000Z" then some 1767229200000 else none

def sampleSettings : Settings where
  hubIdentity := some "hub"
  sessionId := none

/-- A claim for an hour. -/
def sampleClaim : ReplayEnvelope where
  hubIdentity := "hub"
  request := {
    requestId := Uuid.ofNat 2
    originId := Uuid.ofNat 1
    sequence := 1
    createdMs := 1767225600000
    expiresMs := 1767229200000
    operation := .claimRequest
    surface := .cli
    arguments := [("agent", .str "a"), ("resource", .str "src/x")] }

/-- What the claim authority grants for it. -/
def sampleGrant : OwnershipClaim where
  resource := "src/x"
  agent := "a"
  priorityArgument := ""
  timestamp := "2026-01-01T00:00:00.000000Z"
  status := .granted
  mode := .exclusive
  leaseNamespace := none
  scopeKind := none
  scopePath := none
  repoScopes := []
  threadId := none
  leaseTtlSeconds := 3600
  expiresAt := some "2026-01-01T01:00:00.000000Z"
  scope := .repo
  rerouteSuggestion := none

/-- Where a script has nothing to draw. -/
def sampleTrip : TaskIo := .script ⟨"", "", ""⟩ "" false .done

/-- The claim is made and granted, replayed by a second call before it is finished and by a third
after its memo has expired. -/
def replayedClaim : List HubInput :=
  [.accept 0 sampleClaim false,
   .proceed 0 1767225600000 sampleTrip,
   .proceed 0 1767225600000 (.time true),
   .command 1767225600000 (.claim (.hset "src/x" "a" sampleGrant)),
   .proceed 0 1767225600000 (.dispatched (some sampleGrant)),
   .accept 1 sampleClaim false,
   .proceed 1 1767225600001 sampleTrip,
   .proceed 0 1767225600001 (.finish .done),
   .accept 2 sampleClaim false,
   .proceed 2 1767325600002 sampleTrip]

theorem dispatch_once_replayedClaim :
    let outs := ((HubState.machine samplePlatform sampleSettings).exec {} replayedClaim).2
    0 < dispatchCount (Uuid.ofNat 2) outs ∧ dispatchCount (Uuid.ofNat 2) outs ≤ 1 := by
  refine ⟨by decide +kernel, dispatch_once samplePlatform sampleSettings sampleClaim rfl
    replayedClaim ?_⟩
  intro i envelope sse hmem _
  simp only [replayedClaim, List.mem_cons, HubInput.accept.injEq, reduceCtorEq, List.not_mem_nil,
    or_false, false_or] at hmem
  rcases hmem with h | h | h <;> exact h.2.1

/-! ### The live authority -/

/-- The claim of an agent that a command finds in the claims of a resource. -/
def liveClaim (db : Redis) (now : Nat) (key agent : String) : Option Value :=
  match readKey (db.claims key) now with
  | some (.hash entries) => (entries.lookup agent).join
  | _ => none

/-- The result is what the agent holds, before the request and the lease run out. -/
def LiveGrant (platform : Platform) (db : Redis) (now : Nat) (r : ReplayRequest) (result : Value) :
    Prop :=
  ∃ (c : OwnershipClaim) (ms : Int),
    liveClaim db now (claimsKey (text r.arguments "resource" "")) (text r.arguments "agent" "") =
      some c.value ∧
    result = asMap c.value ∧ now < r.expiresMs.toNat ∧
    c.expiresAt.bind platform.parseRfc3339 = some ms ∧ now < ms

/-- The entries of a resource are claims. -/
def ClaimsValue.Typed : ClaimsValue → Prop
  | .other => True
  | .hash entries => ∀ p ∈ entries, ∃ c : OwnershipClaim, p.2 = some c.value

/-- A remembered answer of a claim is its grant, with a deadline no later than the lease. -/
def Granted (platform : Platform) (response : Stored) (deadline : Nat) : Prop :=
  response = .superseded ∨ ∃ (c : OwnershipClaim) (ms : Int), response = .claim c ∧
    c.leaseTtlSeconds.toNat ≤ 86400 ∧ c.expiresAt.bind platform.parseRfc3339 = some ms ∧
    deadline ≤ ms

/-- A claim is asked for a day at most, and is not persisted. -/
def Task.Sound (task : Task) : Prop :=
  match task.phase with
  | .admitted => task.envelope.request.validate = .ok () ∧
      task.envelope.request.operation = .claimRequest
  | .dispatching remaining => remaining ≤ 86400
  | .finishing response => response = .superseded ∨
      ∃ c, response = .claim c ∧ c.leaseTtlSeconds.toNat ≤ 86400
  | .persisting _ => task.envelope.request.operation ≠ .claimRequest
  | .called _ => True

structure AuthorityInv (platform : Platform) (h : HubState) : Prop where
  claims : ∀ key, ∀ slot ∈ h.db.claims key, slot.value.Typed
  memos : ∀ id slot fingerprint response deadline, h.db.memos id = some slot →
    slot.value = ⟨fingerprint, .applied response (some deadline)⟩ →
    Granted platform response deadline
  tasks : ∀ i, ∀ task ∈ h.tasks i, task.Sound

theorem readKey_mem {α : Type} {slot : Option (Expiring α)} {now : Nat} {a : α}
    (h : readKey slot now = some a) : ∃ e ∈ slot, e.value = a := by
  obtain ⟨deadline, rfl, -⟩ := readKey_eq_some.mp h
  exact ⟨_, rfl, rfl⟩

/-- The claim operations write claims. -/
theorem ClaimCommand.apply_typed (command : ClaimCommand) {slot : Option (Expiring ClaimsValue)}
    (h : ∀ e ∈ slot, e.value.Typed) (now : Nat) :
    ∀ e ∈ command.apply slot now, e.value.Typed := by
  have hread : ∀ {value}, readKey slot now = some value → value.Typed := by
    intro value hvalue
    obtain ⟨e, he, rfl⟩ := readKey_mem hvalue
    exact h e he
  intro e he
  cases command with
  | hset key agent claim =>
    -- a claim is put among claims that are all typed
    simp only [ClaimCommand.apply] at he
    split at he
    · simp only [Option.mem_some_iff] at he
      subst he
      intro p hp
      exact ⟨claim, by simp_all⟩
    · exact h e he
    · rename_i entries hentries
      simp only [Option.mem_some_iff] at he
      subst he
      intro p hp
      rcases List.mem_cons.mp hp with rfl | hp
      · exact ⟨claim, rfl⟩
      · exact hread hentries p (List.mem_of_mem_filter hp)
  | hdel key agents =>
    simp only [ClaimCommand.apply] at he
    split at he
    · rename_i entries hentries
      split at he
      · cases he
      · simp only [Option.mem_some_iff] at he
        subst he
        intro p hp
        exact hread hentries p (List.mem_of_mem_filter hp)
    · exact h e he
  | del key => cases he
  | expire key seconds =>
    simp only [ClaimCommand.apply] at he
    split at he
    · rename_i value hvalue
      split at he
      · cases he
      · simp only [Option.mem_some_iff] at he
        subst he
        exact hread hvalue
    · exact h e he
  | clobber key =>
    -- what another program writes is no hash
    simp only [ClaimCommand.apply, Option.mem_some_iff] at he
    subst he
    trivial

/-- What is remembered with a deadline is what `finish_claim` was given. -/
theorem TaskStep.granted {task : Task} {db : Redis} {now : Nat} {result : Progress × List Write}
    (h : TaskStep platform settings task db now result) (hsound : task.Sound) {id : Uuid}
    {fingerprint : String} {response : Stored} {d : Nat} {deadline : Option Nat}
    (hmem : Write.setMemo id ⟨fingerprint, .applied response (some d)⟩ deadline ∈ result.2) :
    Granted platform response d := by
  cases h.source with
  | silent hnil =>
    -- a step without a write saves no memo
    rw [hnil] at hmem
    cases hmem
  | script hphase hplan hrun hpart =>
    -- the first script saves no memo that is applied with a deadline
    obtain ⟨state, hset, hstate⟩ := hrun.setMemo (hpart.subset hmem)
    simp only [saveMemo, Write.setMemo.injEq, Memo.mk.injEq] at hset
    rcases hstate with rfl | ⟨_, rfl, -⟩ <;> simp at hset
  | @finish given input run hphase hinput hrun hpart =>
    obtain ⟨claimExpiresMs, hdeadline, rfl⟩ := finishInput_eq hinput
    obtain ⟨-, hmemo, -⟩ := hrun.memo_eq (hpart.subset hmem)
    simp only [Memo.mk.injEq, MemoState.applied.injEq, Option.some.injEq] at hmemo
    obtain ⟨-, rfl, rfl⟩ := hmemo
    simp only [Task.Sound, hphase] at hsound
    -- the task has found the request superseded, or holds the claim it was given
    rcases hsound with rfl | ⟨c, rfl, hlifetime⟩
    · exact .inl rfl
    · simp only [claimDeadline] at hdeadline
      split at hdeadline
      · rename_i ms hms
        split at hdeadline
        · simp only [Option.some.injEq] at hdeadline
          exact .inr ⟨c, ms, rfl, hlifetime, hms, by omega⟩
        · cases hdeadline
      · cases hdeadline

namespace AuthorityInv

variable {h : HubState}

theorem init (platform : Platform) : AuthorityInv platform {} where
  claims := by simp
  memos := by simp
  tasks := by simp

/-- The tasks after one of them was replaced. -/
theorem tasks_update (hinv : AuthorityInv platform h) {i : Nat} {slot : Option Task}
    (hslot : ∀ task ∈ slot, task.Sound) (j : Nat) :
    ∀ task ∈ Function.update h.tasks i slot j, task.Sound := by
  by_cases hj : j = i
  · subst hj
    rw [Function.update_self]
    exact hslot
  · rw [Function.update_of_ne hj]
    exact hinv.tasks j

/-- The keys after a step of a call. -/
theorem proceed (hinv : AuthorityInv platform h) {i now : Nat} {task : Task}
    (htask : h.tasks i = some task) {result : Progress × List Write}
    (hstep : TaskStep platform settings task h.db now result) {slot : Option Task}
    (hslot : ∀ task ∈ slot, task.Sound) :
    AuthorityInv platform
      { db := h.db.writes result.2, now, tasks := Function.update h.tasks i slot } where
  claims key := by
    rw [Redis.claims_writes hstep.claims_notMem]
    exact hinv.claims key
  memos := by
    intro id slot fingerprint response deadline hmemo hvalue
    rcases h.db.memos_writes result.2 id with hkept | ⟨memo, expiry, hmem, hset⟩
    · exact hinv.memos id slot fingerprint response deadline (hkept ▸ hmemo) hvalue
    · rw [hset, Option.some.injEq] at hmemo
      subst hmemo
      simp only at hvalue
      subst hvalue
      exact hstep.granted (hinv.tasks i task htask) hmem
  tasks := hinv.tasks_update hslot

theorem sound_next {task : Task} {db : Redis} {now : Nat} {phase : TaskPhase}
    {outs : List HubOutput} {writes : List Write} (hsound : task.Sound)
    (hstep : TaskStep platform settings task db now (.next phase outs, writes)) :
    Task.Sound { task with phase } := by
  cases hstep with
  | admitted hphase hplan hrun hreply =>
    -- the script admitted the claim, and so read it as live
    obtain ⟨hmemo, hlive, rfl⟩ := hrun.admission hreply
    refine ⟨hplan.valid, ?_⟩
    simp only [applyEffect] at hreply
    split at hreply
    · rename_i heffect
      exact hplan.operation_claim heffect
    · split at hreply <;> cases hreply
    · cases hreply
  | stored hphase hplan hrun hreply hresponse hoperation => exact hoperation
  | lapsed hphase => exact .inl rfl
  | dispatched hphase =>
    simp only [Task.Sound, hphase] at hsound
    -- the request was valid, which bounds the seconds it asks for
    obtain ⟨hvalid, hclaim⟩ := hsound
    have hlifetime := ReplayRequest.lifetime_of_validate hvalid (by rw [hclaim]; rfl)
    show remainingSeconds task.envelope.request now ≤ 86400
    unfold remainingSeconds
    omega
  | claimed hphase hlifetime =>
    simp only [Task.Sound, hphase] at hsound
    exact .inr ⟨_, rfl, by omega⟩

theorem step (hinv : AuthorityInv platform h) (input : HubInput) :
    AuthorityInv platform (h.step platform settings input).1 := by
  have hstep := h.step_sound platform settings input
  revert hstep
  generalize h.step platform settings input = result
  intro hstep
  cases hstep with
  | idle => exact hinv
  | accepted hfree => exact ⟨hinv.claims, hinv.memos, hinv.tasks_update (by simp [Task.Sound])⟩
  | stopped => exact ⟨hinv.claims, hinv.memos, hinv.tasks_update (by simp)⟩
  | @commanded t now command hnow =>
    refine ⟨?_, ?_, hinv.tasks⟩
    · intro key
      cases command with
      | claim c =>
        -- a claim is the one command that writes under a claims key
        simp only [Command.writes, Redis.writes_cons, Redis.writes_nil, Redis.write]
        by_cases hkey : key = c.key
        · subst hkey
          rw [Function.update_self]
          exact c.apply_typed (hinv.claims c.key) now
        · rw [Function.update_of_ne hkey]
          exact hinv.claims key
      | post entry =>
        simp only [Command.writes]
        split <;> exact hinv.claims key
      | announce presence seconds => exact hinv.claims key
    · intro id slot fingerprint response deadline hmemo
      rw [Command.memos_writes] at hmemo
      exact hinv.memos id slot fingerprint response deadline hmemo
  | moved hnow htask hstep =>
    refine hinv.proceed htask hstep ?_
    rintro task' ⟨⟩
    exact sound_next (hinv.tasks _ _ htask) hstep
  | answered hnow htask hstep => exact hinv.proceed htask hstep (by simp)

theorem exec (platform : Platform) (settings : Settings) (is : List HubInput) :
    AuthorityInv platform ((HubState.machine platform settings).exec {} is).1 :=
  Machine.exec_induction (HubState.machine platform settings)
    (P := fun _ h _ => AuthorityInv platform h) (init platform)
    (fun _ _ _ input hinv => hinv.step input) is

end AuthorityInv

/-! ### Answers -/

theorem liveClaim_of_lookup {db : Redis} {now : Nat} {key agent : String}
    {entries : List (String × Option Value)} {v : Value}
    (hread : readKey (db.claims key) now = some (.hash entries))
    (hlookup : entries.lookup agent = some (some v)) : liveClaim db now key agent = some v := by
  simp [liveClaim, hread, hlookup]

/-- An entry that compares equal to a claim of at most a day is that claim. -/
theorem AuthorityInv.eq_of_same {h : HubState} (hinv : AuthorityInv platform h) {now : Nat}
    {key agent : String} {v : Value} (hlive : liveClaim h.db now key agent = some v)
    {c : OwnershipClaim} (hsame : same v c.value = true)
    (hlifetime : c.leaseTtlSeconds.toNat ≤ 86400) : v = c.value := by
  unfold liveClaim at hlive
  split at hlive
  · rename_i entries hread
    obtain ⟨slot, hslot, hvalue⟩ := readKey_mem hread
    have htyped := hinv.claims key slot hslot
    rw [hvalue] at htyped
    have ho := Option.join_eq_some_iff.mp hlive
    obtain ⟨l₁, l₂, hentries, -⟩ := List.lookup_eq_some_iff.mp ho
    obtain ⟨c', hc'⟩ := htyped (agent, some v) (by rw [hentries]; simp)
    simp only [Option.some.injEq] at hc'
    subst hc'
    rw [OwnershipClaim.same_value hsame hlifetime]
  · cases hlive

/-- A claim that is finished is the one the authority holds. -/
theorem finishGuard_eq_none {db : Redis} {now : Nat} {input : FinishInput} {c : OwnershipClaim}
    (hresponse : input.response = .claim c) (h : finishGuard db now input = none) :
    ∃ v, liveClaim db now input.key input.agent = some v ∧ same v c.value = true := by
  simp only [finishGuard, hresponse, Stored.result] at h
  split at h
  · cases h
  · cases h
  · rename_i entries hread
    split at h
    · cases h
    · cases h
    · rename_i v hlookup
      split at h
      · cases h
      · split at h
        · rename_i hsame
          exact ⟨v, liveClaim_of_lookup hread hlookup, hsame⟩
        · cases h

/-- What the cached path says about a claim: pending, superseded, or the remembered response while
the authority holds it. -/
theorem cachedClaim_cases (db : Redis) (now : Nat) (key agent : String) (response : Stored)
    (claimExpiresMs : Option Nat) :
    cachedClaim db now key agent response claimExpiresMs = .pending ∨
    cachedClaim db now key agent response claimExpiresMs = .stored .superseded ∨
    cachedClaim db now key agent response claimExpiresMs = .stored response ∧
      ∃ deadline v result, claimExpiresMs = some deadline ∧ now < deadline ∧
        liveClaim db now key agent = some v ∧ response.result = some result ∧
        same v result = true := by
  unfold cachedClaim
  -- without a deadline the claim is still pending
  split
  · exact .inl rfl
  · rename_i deadline
    -- its deadline has passed
    split
    · exact .inr (.inl rfl)
    · rename_i hlive
      split
      · exact .inr (.inl rfl)
      · -- nothing is stored under the key
        exact .inl rfl
      · rename_i entries hread
        split
        · exact .inr (.inl rfl)
        · -- the key holds another agent's claims only
          rename_i current hlookup
          split
          · rename_i v result hresult
            split
            · exact .inl rfl
            · split
              · -- the live claim is the one that was answered
                rename_i hsame
                exact .inr (.inr ⟨rfl, deadline, v, result, rfl, by omega,
                  liveClaim_of_lookup hread hlookup, hresult, hsame⟩)
              · exact .inr (.inl rfl)
          · exact .inl rfl

/-- What the script says about a claim it remembers. -/
theorem AuthorityInv.cachedReply_cases {h : HubState} (hinv : AuthorityInv platform h) {now : Nat}
    {e : ReplayEnvelope} (hclaim : e.request.operation = .claimRequest) {draw : Draw} {sse : Bool}
    {input : ScriptInput} (hplan : Planned platform settings e draw sse input) {record : Memo}
    (hmemo : readKey (h.db.memos input.requestId) now = some record) :
    (cachedReply h.db now input record = .idCollision ∧
      record.fingerprint ≠ fingerprint platform e.request) ∨
    cachedReply h.db now input record = .pending ∨
    cachedReply h.db now input record = .stored .superseded ∨
    ∃ c, cachedReply h.db now input record = .stored (.claim c) ∧
      LiveGrant platform h.db now e.request (asMap c.value) := by
  unfold cachedReply
  rw [hplan.effect_claim hclaim]
  split
  · -- a memo under another fingerprint is a collision
    rename_i hother
    rw [hplan.fingerprint] at hother
    exact .inl ⟨rfl, hother⟩
  · simp only
    split
    · exact .inr (.inr (.inl rfl))
    · rename_i hexpires
      split
      · rename_i response claimExpiresMs hstate
        -- the memo was applied: its claim is compared with the one in the hash
        rcases cachedClaim_cases h.db now (claimsKey (text e.request.arguments "resource" ""))
            (text e.request.arguments "agent" "") response claimExpiresMs with
          hpending | hsuperseded | ⟨hstored, deadline, v, result, rfl, hlive, hv, hresult, hsame⟩
        · exact .inr (.inl hpending)
        · exact .inr (.inr (.inl hsuperseded))
        · obtain ⟨slot, hslot, rfl⟩ := readKey_mem hmemo
          have hgranted := hinv.memos _ slot slot.value.fingerprint response deadline hslot
            (by rw [← hstate])
          rcases hgranted with rfl | ⟨c, ms, rfl, hlifetime, hms, hdeadline⟩
          · cases hresult
          · simp only [Stored.result, Option.some.injEq] at hresult
            subst hresult
            -- the claim that is found is the one that was granted
            have hv' := hinv.eq_of_same hv hsame hlifetime
            subst hv'
            refine .inr (.inr (.inr ⟨c, hstored, c, ms, hv, rfl, ?_, hms, by omega⟩))
            rw [hplan.expiresMs] at hexpires
            omega
      · exact .inr (.inl rfl)

/-- A claim that the script answers at once is one it remembers. -/
theorem AuthorityInv.live_of_scripted {h : HubState} (hinv : AuthorityInv platform h) {now : Nat}
    {e : ReplayEnvelope} (hclaim : e.request.operation = .claimRequest) {draw : Draw} {sse : Bool}
    {input : ScriptInput} (hplan : Planned platform settings e draw sse input)
    {streamId : String} {run : ScriptReply × List Write}
    (hrun : ScriptRun h.db now input streamId run) {result : Value}
    (hanswer : afterScript e.request run.1 = .answer (.ok (.applied result))) :
    LiveGrant platform h.db now e.request result := by
  obtain hpending | hsuperseded | ⟨stored, result', hreply, hne, -, hresult, heq⟩ :=
    afterScript_answer hanswer
  · cases hpending
  · cases hsuperseded
  · cases heq
    cases hrun with
    | cached hmemo =>
      -- an answer from the memo is live only if the claim still stands
      simp only at hreply
      rcases hinv.cachedReply_cases hclaim hplan hmemo with
        ⟨hcollision, -⟩ | hpending | hsuperseded | ⟨c, hstored, hlive⟩
      · rw [hcollision] at hreply
        cases hreply
      · rw [hpending] at hreply
        cases hreply
      · rw [hsuperseded] at hreply
        cases hreply
        exact absurd rfl hne
      · rw [hstored] at hreply
        cases hreply
        simp only [appliedResult, hclaim, Stored.result, Option.getD_some, Except.ok.injEq]
          at hresult
        rw [← hresult]
        exact hlive
    | expired =>
      -- an expired request is answered as superseded
      cases hreply
      exact absurd rfl hne
    | refused hmemo hlive hrefusal => rcases hrefusal with rfl | rfl <;> cases hreply
    | applied =>
      simp only [applyEffect, hplan.effect_claim hclaim] at hreply
      cases hreply

/-- A claim that is finished is live. -/
theorem AuthorityInv.live_of_finished {h : HubState} (hinv : AuthorityInv platform h)
    {now : Nat} {task : Task} (hsound : task.Sound) {response : Stored}
    (hphase : task.phase = .finishing response) {input : FinishInput}
    (hinput : finishInput platform task.envelope.request response = some input)
    {writes : List Write} (hrun : FinishRun h.db now input (.completed, writes)) {result : Value}
    (hresult : finishedResponse response = .applied result) :
    LiveGrant platform h.db now task.envelope.request result := by
  obtain ⟨claimExpiresMs, hdeadline, rfl⟩ := finishInput_eq hinput
  simp only [Task.Sound, hphase] at hsound
  rcases hsound with rfl | ⟨c, rfl, hlifetime⟩
  · cases hresult
  · simp only [finishedResponse, ReplayResponse.applied.injEq] at hresult
    subst hresult
    cases hrun with
    | left hreply => exact absurd rfl hreply
    | completed hmemo hlive hguard =>
      -- the second script found the claim it had stored
      obtain ⟨v, hv, hsame⟩ := finishGuard_eq_none rfl hguard
      have hv' := hinv.eq_of_same hv hsame hlifetime
      subst hv'
      simp only [claimDeadline] at hdeadline
      split at hdeadline
      · rename_i ms hms
        split at hdeadline
        · simp only [Option.some.injEq] at hdeadline
          simp only at hlive
          exact ⟨c, ms, hv, rfl, by omega, hms, by omega⟩
        · cases hdeadline
      · cases hdeadline

theorem depthItems_str (xs : List String) : Value.depthItems (xs.map .str) = 0 := by
  induction xs with
  | nil => rfl
  | cons x xs ih => simp [Value.depthItems, Value.depth, ih]

theorem depthFields_le {m : Fields} {n : Nat} (h : ∀ kv ∈ m, kv.2.depth ≤ n) :
    Value.depthFields m ≤ n := by
  induction m with
  | nil => simp [Value.depthFields]
  | cons kv m ih =>
    simp only [Value.depthFields]
    exact max_le (h kv List.mem_cons_self) (ih fun kv hmem => h kv (List.mem_cons_of_mem _ hmem))

/-- A claim holds texts, a number, a list of texts and an object of texts. -/
theorem OwnershipClaim.depth_slots (c : OwnershipClaim) :
    ∀ kv ∈ c.slots, ∀ v ∈ kv.2, v.depth ≤ 1 := by
  simp only [OwnershipClaim.slots, List.forall_mem_cons, List.not_mem_nil, false_implies,
    implies_true, and_true, Option.mem_some_iff, forall_eq', Value.depth, Nat.zero_le, true_and,
    Option.mem_map, forall_exists_index, and_imp, forall_apply_eq_imp_iff₂]
  constructor
  · intro v hv
    split at hv
    · cases hv
    · simp only [Option.mem_some_iff] at hv
      subst hv
      simp [Value.depth, depthItems_str]
  · intro r _
    simp [RerouteSuggestion.value, Value.depth, Value.depthFields]

/-- The text of a claim is always read back. -/
theorem parses_claim (c : OwnershipClaim) : parses (.claim c) = true := by
  have hfields : Value.depthFields (Fields.compact c.slots) ≤ 1 := by
    refine depthFields_le fun kv hkv => ?_
    obtain ⟨⟨k, o⟩, hmem, hsome⟩ := List.mem_filterMap.mp hkv
    obtain ⟨v, hv, rfl⟩ := Option.map_eq_some_iff.mp hsome
    exact c.depth_slots (k, o) hmem v hv
  have hdepth : (Value.obj [("status", .str "applied"), ("result", c.value)]).depth ≤ maxDepth := by
    simp only [OwnershipClaim.value, Value.depth, Value.depthFields]
    unfold maxDepth
    omega
  simpa [parses, Stored.result] using hdepth

theorem AuthorityInv.live_of_answered {h : HubState} (hinv : AuthorityInv platform h)
    {input : HubInput} {reached : HubState × List HubOutput}
    (hstep : HubStep platform settings h input reached) {e : ReplayEnvelope} {result : Value}
    (hclaim : e.request.operation = .claimRequest)
    (hmem : .answered e (.ok (.applied result)) ∈ reached.2) :
    LiveGrant platform h.db reached.1.now e.request result := by
  cases hstep with
  | moved hnow htask hstep => cases hstep <;> simp at hmem
  | @answered i t now io task answer writes hnow htask hstep =>
    simp only [List.mem_singleton, HubOutput.answered.injEq] at hmem
    -- an applied answer comes from the script, from the finish or from the store
    obtain ⟨rfl, rfl⟩ := hmem
    have hsound := hinv.tasks i task htask
    generalize hprogress : Progress.answer (.ok (.applied result)) = progress at hstep
    cases hstep with
    | scripted hphase hplan hrun hanswer =>
      cases hprogress
      exact hinv.live_of_scripted hclaim hplan hrun hanswer
    | finished hphase hinput hrun =>
      simp only [Progress.answer.injEq, Except.ok.injEq] at hprogress
      exact hinv.live_of_finished hsound hphase hinput hrun hprogress.symm
    | unfinished hphase hresult => rcases hresult with rfl | rfl <;> cases hprogress
    | persisted hphase =>
      simp only [Task.Sound, hphase] at hsound
      exact absurd hclaim hsound
    | _ => cases hprogress
  | _ => simp at hmem

theorem HubStep.claims_eq {h : HubState} {i t : Nat} {io : TaskIo}
    {reached : HubState × List HubOutput}
    (hstep : HubStep platform settings h (.proceed i t io) reached) :
    reached.1.db.claims = h.db.claims := by
  cases hstep with
  | idle => rfl
  | moved hnow htask hstep => exact Redis.claims_writes hstep.claims_notMem
  | answered hnow htask hstep => exact Redis.claims_writes hstep.claims_notMem

/-- A claim that is remembered is answered at once, and nothing is written. -/
theorem AuthorityInv.cached_answer {h : HubState} (hinv : AuthorityInv platform h) {i t : Nat}
    {draw : Draw} {streamId : String} {foreign sse : Bool} {task : Task} {plan : ScriptInput}
    {record : Memo} (htask : h.tasks i = some task) (hphase : task.phase = .called sse)
    (hclaim : task.envelope.request.operation = .claimRequest)
    (hplan : planRequest platform settings task.envelope draw sse = .ok plan)
    (hmemo : readKey (h.db.memos task.envelope.request.requestId) (max h.now t) = some record)
    (hfingerprint : record.fingerprint = fingerprint platform task.envelope.request) :
    (h.step platform settings (.proceed i t (.script draw streamId foreign .done))).1.db = h.db ∧
      ∃ response,
        (h.step platform settings (.proceed i t (.script draw streamId foreign .done))).2 =
          [.answered task.envelope (.ok response)] := by
  have hplanned := planRequest_ok hplan
  rw [← hplanned.requestId] at hmemo
  have hrun : replayScript h.db (max h.now t) plan streamId foreign =
      (cachedReply h.db (max h.now t) plan record, []) := by
    unfold replayScript
    rw [hmemo]
  simp only [HubState.step, htask, Task.step, hphase, hplan, runScript, hrun]
  rcases hinv.cachedReply_cases hclaim hplanned hmemo with
    ⟨-, hother⟩ | hreply | hreply | ⟨c, hreply, -⟩
  · -- a memo of the same request is no collision
    exact absurd hfingerprint hother
  · rw [hreply]
    exact ⟨rfl, _, rfl⟩
  · rw [hreply]
    exact ⟨rfl, _, rfl⟩
  · have hanswer : afterScript task.envelope.request (.stored (.claim c)) =
        .answer (.ok (.applied (asMap c.value))) := by
      simp [afterScript, parses_claim, appliedResult, hclaim, Stored.result]
    rw [hreply, hanswer]
    exact ⟨rfl, _, rfl⟩

/-- **A claim is answered from the live authority.**  When a call answers a claim with a result, the
claims of the resource hold exactly that result for the agent, and neither the request nor the lease
has run out, at the time of the script that decided it.  No call of `accept` changes the claims, and
a claim that is remembered changes nothing: it is answered with such a result, superseded or
pending. -/
theorem claim_answer_live (platform : Platform) (settings : Settings) (is : List HubInput)
    (input : HubInput) :
    let h := ((HubState.machine platform settings).exec {} is).1
    let h' := (h.step platform settings input).1
    let outs := (h.step platform settings input).2
    (∀ e result, e.request.operation = .claimRequest →
      .answered e (.ok (.applied result)) ∈ outs →
      LiveGrant platform h.db h'.now e.request result) ∧
    (∀ i t io, input = .proceed i t io → h'.db.claims = h.db.claims) ∧
    (∀ i t draw streamId foreign task sse plan record,
      input = .proceed i t (.script draw streamId foreign .done) →
      h.tasks i = some task → task.phase = .called sse →
      task.envelope.request.operation = .claimRequest →
      planRequest platform settings task.envelope draw sse = .ok plan →
      readKey (h.db.memos task.envelope.request.requestId) (max h.now t) = some record →
      record.fingerprint = fingerprint platform task.envelope.request →
      h'.db = h.db ∧ ∃ response, outs = [.answered task.envelope (.ok response)]) := by
  intro h h' outs
  have hinv : AuthorityInv platform h := AuthorityInv.exec platform settings is
  have hstep := h.step_sound platform settings input
  refine ⟨fun e result hclaim hmem => hinv.live_of_answered hstep hclaim hmem, ?_, ?_⟩
  · rintro i t io rfl
    exact hstep.claims_eq
  · rintro i t draw streamId foreign task sse plan record rfl htask hphase hclaim hplan hmemo
      hfingerprint
    exact hinv.cached_answer htask hphase hclaim hplan hmemo hfingerprint

/-- The first call of `replayedClaim` is answered with the grant. -/
theorem claim_answer_live_replayedClaim :
    let h := ((HubState.machine samplePlatform sampleSettings).exec {} (replayedClaim.take 7)).1
    let h' := (h.step samplePlatform sampleSettings (.proceed 0 1767225600001 (.finish .done))).1
    LiveGrant samplePlatform h.db h'.now sampleClaim.request (asMap sampleGrant.value) := by
  have hanswer : HubOutput.answered sampleClaim (.ok (.applied (asMap sampleGrant.value))) ∈
      (((HubState.machine samplePlatform sampleSettings).exec {} (replayedClaim.take 7)).1.step
        samplePlatform sampleSettings (.proceed 0 1767225600001 (.finish .done))).2 := by
    decide +kernel
  exact (claim_answer_live samplePlatform sampleSettings (replayedClaim.take 7)
    (.proceed 0 1767225600001 (.finish .done))).1 sampleClaim _ rfl hanswer

end AgentHub.Hub
