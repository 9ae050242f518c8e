import AgentHub.Hub.Accept
import AgentHub.Outbox.Equiv.Request

/-!
# What a round trip of the hub can do

The inversions the results about the hub are derived from: `ScriptRun` for the replay script,
`FinishRun` for the script of `finish_claim`, and `TaskStep` for one step of a call of `accept`,
each with everything it writes.  `HubStep` lifts the last to the whole hub.
-/

namespace AgentHub.Hub

open AgentHub.Json AgentHub.Outbox

/-! ### Keys and writes -/

theorem readKey_eq_some {α : Type} {slot : Option (Expiring α)} {now : Nat} {a : α} :
    readKey slot now = some a ↔
      ∃ deadline, slot = some ⟨a, deadline⟩ ∧ ∀ t ∈ deadline, now ≤ t := by
  constructor
  · intro h
    rcases slot with _ | ⟨value, deadline⟩
    · simp [readKey] at h
    · simp only [readKey] at h
      split at h
      · rename_i hlive
        simp only [Option.some.injEq] at h
        subst h
        exact ⟨deadline, rfl, by simpa [Option.all_eq_true] using hlive⟩
      · cases h
  · rintro ⟨deadline, rfl, hlive⟩
    simp only [readKey]
    rw [if_pos]
    simpa [Option.all_eq_true] using hlive

/-- A key that is set but not found has passed its deadline. -/
theorem lt_of_readKey_eq_none {α : Type} {a : α} {deadline now : Nat}
    (h : readKey (some (⟨a, some deadline⟩ : Expiring α)) now = none) : deadline < now := by
  by_contra hle
  have hread : readKey (some (⟨a, some deadline⟩ : Expiring α)) now = some a :=
    readKey_eq_some.mpr ⟨_, rfl, by simpa using hle⟩
  rw [h] at hread
  cases hread

/-- A key without a deadline is always found. -/
theorem readKey_permanent {α : Type} (a : α) (now : Nat) :
    readKey (some (⟨a, none⟩ : Expiring α)) now = some a :=
  readKey_eq_some.mpr ⟨none, rfl, by simp⟩

namespace Redis

@[simp] theorem writes_nil (db : Redis) : db.writes [] = db := rfl

@[simp] theorem writes_cons (db : Redis) (w : Write) (ws : List Write) :
    db.writes (w :: ws) = (db.write w).writes ws := rfl

theorem writes_append (db : Redis) (a b : List Write) :
    db.writes (a ++ b) = (db.writes a).writes b := by
  simp [writes]

/-- A memo is as it was, or one that a write has set. -/
theorem memos_writes (db : Redis) (ws : List Write) (id : Uuid) :
    (db.writes ws).memos id = db.memos id ∨
      ∃ memo deadline, Write.setMemo id memo deadline ∈ ws ∧
        (db.writes ws).memos id = some ⟨memo, deadline⟩ := by
  induction ws generalizing db with
  | nil => exact .inl rfl
  | cons w ws ih =>
    rw [writes_cons]
    rcases ih (db.write w) with hkept | ⟨memo, deadline, hmem, hset⟩
    · cases w with
      | setMemo id' memo deadline =>
        by_cases hid : id = id'
        · subst hid
          exact .inr ⟨memo, deadline, List.mem_cons_self, by rw [hkept]; simp [write]⟩
        · exact .inl (by rw [hkept]; simp [write, Function.update_of_ne hid])
      | _ => exact .inl hkept
    · exact .inr ⟨memo, deadline, List.mem_cons_of_mem _ hmem, hset⟩

theorem claims_writes {db : Redis} {ws : List Write}
    (h : ∀ key slot, Write.setClaims key slot ∉ ws) : (db.writes ws).claims = db.claims := by
  induction ws generalizing db with
  | nil => rfl
  | cons w ws ih =>
    rw [writes_cons, ih fun key slot hmem => h key slot (List.mem_cons_of_mem _ hmem)]
    cases w with
    | setClaims key slot => exact absurd List.mem_cons_self (h key slot)
    | _ => rfl

end Redis

/-- The stream entry a write adds. -/
def Write.entry? : Write → Option StreamEntry
  | .addEntry entry => some entry
  | _ => none

theorem Redis.stream_writes (db : Redis) (ws : List Write) :
    (db.writes ws).stream = db.stream ++ ws.filterMap Write.entry? := by
  induction ws generalizing db with
  | nil => simp
  | cons w ws ih =>
    rw [writes_cons, ih]
    cases w <;> simp [Redis.write, Write.entry?, List.filterMap_cons]

/-! ### The replay script -/

/-- **What a run of the replay script can do.** -/
inductive ScriptRun (db : Redis) (now : Nat) (input : ScriptInput) (streamId : String) :
    ScriptReply × List Write → Prop
  | cached {record : Memo} (hmemo : readKey (db.memos input.requestId) now = some record) :
      ScriptRun db now input streamId (cachedReply db now input record, [])
  | expired (hmemo : readKey (db.memos input.requestId) now = none)
      (hexpired : input.expiresMs ≠ 0 ∧ input.expiresMs ≤ now) :
      ScriptRun db now input streamId (.stored .superseded, [])
  | refused {reply : ScriptReply} (hmemo : readKey (db.memos input.requestId) now = none)
      (hlive : input.expiresMs = 0 ∨ now < input.expiresMs)
      (hreply : reply = .futureRequest ∨ reply = .keyType) :
      ScriptRun db now input streamId (reply, [])
  | applied (hmemo : readKey (db.memos input.requestId) now = none)
      (hlive : input.expiresMs = 0 ∨ now < input.expiresMs) :
      ScriptRun db now input streamId (applyEffect db now input streamId)

theorem replayScript_sound (db : Redis) (now : Nat) (input : ScriptInput) (streamId : String)
    (foreign : Bool) :
    ScriptRun db now input streamId (replayScript db now input streamId foreign) := by
  unfold replayScript
  cases hmemo : readKey (db.memos input.requestId) now with
  | some record => exact .cached hmemo
  | none =>
    simp only
    by_cases hexpired : input.expiresMs ≠ 0 ∧ input.expiresMs ≤ now
    · rw [if_pos hexpired]
      exact .expired hmemo hexpired
    · rw [if_neg hexpired]
      have hlive : input.expiresMs = 0 ∨ now < input.expiresMs := by omega
      split
      · exact .refused hmemo hlive (.inl rfl)
      · split
        · exact .refused hmemo hlive (.inr rfl)
        · exact .applied hmemo hlive

theorem cachedClaim_ne_admission (db : Redis) (now : Nat) (key agent : String) (response : Stored)
    (claimExpiresMs : Option Nat) :
    cachedClaim db now key agent response claimExpiresMs ≠ .claimAdmission := by
  unfold cachedClaim
  repeat' split
  all_goals simp

/-- A remembered request is not admitted again. -/
theorem cachedReply_ne_admission (db : Redis) (now : Nat) (input : ScriptInput) (record : Memo) :
    cachedReply db now input record ≠ .claimAdmission := by
  unfold cachedReply
  split
  · simp
  · split
    · split
      · simp
      · split
        · exact cachedClaim_ne_admission _ _ _ _ _ _
        · simp
    · split <;> simp

/-- What follows the entry of a message touches neither the stream nor a memo nor the claims. -/
theorem messageFollowUps_mem {plan : MessagePlan} {message : Message} {now : Nat} {w : Write}
    (h : w ∈ messageFollowUps plan message now) :
    w.entry? = none ∧ (∀ id memo deadline, w ≠ .setMemo id memo deadline) ∧
      ∀ key slot, w ≠ .setClaims key slot := by
  unfold messageFollowUps at h
  rcases List.mem_append.mp h with h | h
  · rcases List.mem_append.mp h with h | h
    · split at h
      · rw [List.mem_singleton.mp h]
        simp [Write.entry?]
      · cases h
    · split at h
      · rcases List.mem_pair.mp h with rfl | rfl <;> simp [Write.entry?]
      · cases h
  · split at h
    · rw [List.mem_singleton.mp h]
      simp [Write.entry?]
    · rcases List.mem_pair.mp h with rfl | rfl <;> simp [Write.entry?]
    · cases h

theorem applyEffect_claims_notMem {db : Redis} {now : Nat} {input : ScriptInput}
    {streamId : String} (key : String) (slot : Option (Expiring ClaimsValue)) :
    Write.setClaims key slot ∉ (applyEffect db now input streamId).2 := by
  cases heffect : input.effect with
  | claim key agent => simp [applyEffect, heffect, saveMemo]
  | presence presence =>
    simp only [applyEffect, heffect, saveMemo]
    split <;> simp
  | message plan =>
    simp only [applyEffect, heffect, saveMemo, messageWrites, List.mem_append, List.mem_cons,
      reduceCtorEq, List.not_mem_nil, or_false, false_or]
    intro h
    exact (messageFollowUps_mem h).2.2 key slot rfl

/-- A new request sets no memo but its own: the reservation, and what it replies with. -/
theorem applyEffect_setMemo {db : Redis} {now : Nat} {input : ScriptInput} {streamId : String}
    {id : Uuid} {memo : Memo} {deadline : Option Nat}
    (hmem : Write.setMemo id memo deadline ∈ (applyEffect db now input streamId).2) :
    ∃ state, Write.setMemo id memo deadline = saveMemo input now state ∧
      (state = .pending ∨ ∃ response, state = .applied response none ∧
        (applyEffect db now input streamId).1 = .stored response) := by
  -- by the effect: each stores the pending memo, and at most one answer
  cases heffect : input.effect with
  | claim key agent =>
    simp only [applyEffect, heffect, List.mem_singleton] at hmem
    exact ⟨_, hmem, .inl rfl⟩
  | presence presence =>
    simp only [applyEffect, heffect] at hmem ⊢
    split at hmem
    · rename_i hovertaken
      simp only [hovertaken, if_true]
      rcases List.mem_pair.mp hmem with h | h
      · exact ⟨_, h, .inl rfl⟩
      · exact ⟨_, h, .inr ⟨_, rfl, rfl⟩⟩
    · rename_i hfresh
      simp only [hfresh]
      simp only [List.mem_cons, reduceCtorEq, List.not_mem_nil, or_false, false_or] at hmem
      rcases hmem with h | h
      · exact ⟨_, h, .inl rfl⟩
      · exact ⟨_, h, .inr ⟨_, rfl, rfl⟩⟩
  | message plan =>
    simp only [applyEffect, heffect, messageWrites, List.mem_append, List.mem_cons, reduceCtorEq,
      List.not_mem_nil, or_false, false_or] at hmem ⊢
    rcases hmem with (h | h) | h
    · exact ⟨_, h, .inl rfl⟩
    · exact absurd rfl ((messageFollowUps_mem h).2.1 id memo deadline)
    · exact ⟨_, h, .inr ⟨_, rfl, rfl⟩⟩

namespace ScriptRun

variable {db : Redis} {now : Nat} {input : ScriptInput} {streamId : String}
  {run : ScriptReply × List Write}

theorem claims_notMem (h : ScriptRun db now input streamId run) (key : String)
    (slot : Option (Expiring ClaimsValue)) : Write.setClaims key slot ∉ run.2 := by
  cases h with
  | applied => exact applyEffect_claims_notMem key slot
  | _ => simp

/-- The memos a run sets. -/
theorem setMemo (h : ScriptRun db now input streamId run) {id : Uuid} {memo : Memo}
    {deadline : Option Nat} (hmem : Write.setMemo id memo deadline ∈ run.2) :
    ∃ state, Write.setMemo id memo deadline = saveMemo input now state ∧
      (state = .pending ∨ ∃ response, state = .applied response none ∧
        run.1 = .stored response) := by
  cases h with
  | applied => exact applyEffect_setMemo hmem
  | _ => simp at hmem

theorem memo_id (h : ScriptRun db now input streamId run) {id : Uuid} {memo : Memo}
    {deadline : Option Nat} (hmem : Write.setMemo id memo deadline ∈ run.2) :
    id = input.requestId := by
  obtain ⟨state, hset, -⟩ := h.setMemo hmem
  simp only [saveMemo, Write.setMemo.injEq] at hset
  exact hset.1

end ScriptRun

/-! ### The script of `finish_claim` -/

/-- **What a run of the finishing script can do.** -/
inductive FinishRun (db : Redis) (now : Nat) (input : FinishInput) :
    FinishReply × List Write → Prop
  | left {reply : FinishReply} (hreply : reply ≠ .completed) : FinishRun db now input (reply, [])
  | completed {record : Memo} (hmemo : readKey (db.memos input.requestId) now = some record)
      (hlive : now < input.claimExpiresMs) (hguard : finishGuard db now input = none) :
      FinishRun db now input
        (.completed,
          [.setMemo input.requestId
            ⟨input.fingerprint, .applied input.response (some input.claimExpiresMs)⟩
            (some (input.expiresMs + memoRetentionMs))])

theorem finishGuard_ne_completed {db : Redis} {now : Nat} {input : FinishInput}
    {reply : FinishReply} (h : finishGuard db now input = some reply) : reply ≠ .completed := by
  unfold finishGuard at h
  repeat' split at h
  all_goals first | (simp only [Option.some.injEq] at h; subst h; simp) | cases h

theorem finishScript_sound (db : Redis) (now : Nat) (input : FinishInput) :
    FinishRun db now input (finishScript db now input) := by
  unfold finishScript
  cases hmemo : readKey (db.memos input.requestId) now with
  | none => exact .left (by simp)
  | some record =>
    simp only
    split
    · exact .left (by simp)
    · split
      · exact .left (by simp)
      · rename_i hlive
        cases hguard : finishGuard db now input with
        | some reply => exact .left (finishGuard_ne_completed hguard)
        | none => exact .completed hmemo (by omega) hguard

namespace FinishRun

variable {db : Redis} {now : Nat} {input : FinishInput} {run : FinishReply × List Write}

theorem memo_eq (h : FinishRun db now input run) {id : Uuid} {memo : Memo} {deadline : Option Nat}
    (hmem : Write.setMemo id memo deadline ∈ run.2) :
    id = input.requestId ∧
      memo = ⟨input.fingerprint, .applied input.response (some input.claimExpiresMs)⟩ ∧
      deadline = some (input.expiresMs + memoRetentionMs) := by
  cases h with
  | left => simp at hmem
  | completed => simpa using hmem

theorem claims_notMem (h : FinishRun db now input run) (key : String)
    (slot : Option (Expiring ClaimsValue)) : Write.setClaims key slot ∉ run.2 := by
  cases h <;> simp

end FinishRun

theorem finishInput_eq {platform : Platform} {r : ReplayRequest} {response : Stored}
    {input : FinishInput} (h : finishInput platform r response = some input) :
    ∃ claimExpiresMs, claimDeadline platform r.expiresMs.toNat response = some claimExpiresMs ∧
      input = {
        requestId := r.requestId
        fingerprint := fingerprint platform r
        key := claimsKey (text r.arguments "resource" "")
        agent := text r.arguments "agent" ""
        expiresMs := r.expiresMs.toNat
        claimExpiresMs
        response } := by
  obtain ⟨claimExpiresMs, hdeadline, heq⟩ := Option.map_eq_some_iff.mp h
  exact ⟨claimExpiresMs, hdeadline, heq.symm⟩

/-! ### A step of a task -/

/-- The request of a plan is that of its envelope, which is valid. -/
structure Planned (platform : Platform) (settings : Settings) (envelope : ReplayEnvelope)
    (draw : Draw) (hasSse : Bool) (input : ScriptInput) : Prop where
  valid : envelope.request.validate = .ok ()
  identity : settings.hubIdentity = some envelope.hubIdentity
  requestId : input.requestId = envelope.request.requestId
  fingerprint : input.fingerprint = fingerprint platform envelope.request
  createdMs : input.createdMs = envelope.request.createdMs.toNat
  expiresMs : input.expiresMs = envelope.request.expiresMs.toNat
  effect : planEffect platform settings envelope draw hasSse = .ok input.effect

theorem orInvalid_eq_ok {ε α : Type} {x : Except ε α} {a : α} (h : orInvalid x = .ok a) :
    x = .ok a := by
  cases x with
  | error err => simp [orInvalid] at h
  | ok b => simpa [orInvalid] using h

theorem planRequest_ok {platform : Platform} {settings : Settings} {envelope : ReplayEnvelope}
    {draw : Draw} {hasSse : Bool} {input : ScriptInput}
    (h : planRequest platform settings envelope draw hasSse = .ok input) :
    Planned platform settings envelope draw hasSse input := by
  unfold planRequest at h
  cases hvalid : orInvalid envelope.request.validate with
  | error err => simp [hvalid, bind, Except.bind] at h
  | ok u =>
    by_cases hidentity : settings.hubIdentity = some envelope.hubIdentity
    · simp only [hvalid, hidentity, bind, Except.bind, ne_eq, not_true_eq_false, if_false, pure,
        Except.pure] at h
      cases heffect : planEffect platform settings envelope draw hasSse with
      | error err => simp [heffect] at h
      | ok effect =>
        simp only [heffect, Except.ok.injEq] at h
        subst h
        exact ⟨orInvalid_eq_ok hvalid, hidentity, rfl, rfl, rfl, rfl, heffect⟩
    · simp [hvalid, hidentity, bind, Except.bind] at h

theorem claimPlan_ok {r : ReplayRequest} {effect : Effect} (h : claimPlan r = .ok effect) :
    effect = .claim (claimsKey (text r.arguments "resource" "")) (text r.arguments "agent" "") := by
  unfold claimPlan at h
  simp only [bind, Except.bind, pure, Except.pure] at h
  split at h
  · cases h
  · split at h
    · split at h
      · cases h
      · simpa using h.symm
    · simpa using h.symm

theorem messagePlan_ok {platform : Platform} {settings : Settings} {envelope : ReplayEnvelope}
    {draw : Draw} {sse : Bool} {effect : Effect}
    (h : messagePlan platform settings envelope draw sse = .ok effect) :
    ∃ d, ReplayRequest.draft envelope.request = .ok d ∧
      effect = .message (replayPlan platform settings envelope draw sse d) := by
  obtain ⟨d, hd, heffect⟩ := bind_eq_ok.mp h
  simp only [pure, Except.pure, Except.ok.injEq] at heffect
  exact ⟨d, hd, heffect.symm⟩

theorem presencePlan_ok {platform : Platform} {r : ReplayRequest} {effect : Effect}
    (h : presencePlan platform r = .ok effect) : ∃ presence, effect = .presence presence := by
  unfold presencePlan at h
  simp only [bind_eq_ok] at h
  obtain ⟨-, -, -, -, -, -, heffect⟩ := h
  split at heffect
  · cases heffect
  · simp only [pure, Except.pure, Except.ok.injEq] at heffect
    exact ⟨_, heffect.symm⟩

/-- Only a claim is planned as one. -/
theorem Planned.operation_claim {platform : Platform} {settings : Settings}
    {envelope : ReplayEnvelope} {draw : Draw} {sse : Bool} {input : ScriptInput}
    (h : Planned platform settings envelope draw sse input) {key agent : String}
    (heffect : input.effect = .claim key agent) :
    envelope.request.operation = .claimRequest := by
  have hplan := h.effect
  unfold planEffect at hplan
  cases hoperation : envelope.request.operation <;> simp only [hoperation] at hplan
  case claimRequest => rfl
  case presence =>
    obtain ⟨_, hpresence⟩ := presencePlan_ok hplan
    rw [heffect] at hpresence
    cases hpresence
  all_goals
    obtain ⟨_, -, hmessage⟩ := messagePlan_ok hplan
    rw [heffect] at hmessage
    cases hmessage

/-- A call goes on after the script to dispatch an admitted claim, or to persist a message or a
presence. -/
theorem afterScript_next {r : ReplayRequest} {reply : ScriptReply} {phase : TaskPhase}
    {outs : List HubOutput} (h : afterScript r reply = .next phase outs) :
    outs = [] ∧
      ((reply = .claimAdmission ∧ phase = .admitted) ∨
        ∃ response, reply = .stored response ∧ response ≠ .superseded ∧
          phase = .persisting response ∧ r.operation ≠ .claimRequest) := by
  cases reply with
  | claimAdmission =>
    simp only [afterScript, Progress.next.injEq] at h
    exact ⟨h.2.symm, .inl ⟨rfl, h.1.symm⟩⟩
  | stored response =>
    simp only [afterScript] at h
    split at h
    · cases h
    · split at h
      · cases h
      · rename_i hne
        split at h
        · cases h
        · cases h
        · rename_i hoperation
          simp only [Progress.next.injEq] at h
          exact ⟨h.2.symm, .inr ⟨response, rfl, hne, h.1.symm, hoperation⟩⟩
  | _ => simp [afterScript] at h

/-- A call that answers right after the script passes on its verdict, with the result only for a
remembered claim. -/
theorem afterScript_answer {r : ReplayRequest} {reply : ScriptReply} {response : ReplayResponse}
    (h : afterScript r reply = .answer (.ok response)) :
    response = .pending ∨ response = .superseded ∨
      ∃ stored result, reply = .stored stored ∧ stored ≠ .superseded ∧
        r.operation = .claimRequest ∧ appliedResult r stored = .ok result ∧
        response = .applied result := by
  cases reply with
  | pending =>
    simp only [afterScript, Progress.answer.injEq, Except.ok.injEq] at h
    exact .inl h.symm
  | stored stored =>
    simp only [afterScript] at h
    split at h
    · cases h
    · split at h
      · simp only [Progress.answer.injEq, Except.ok.injEq] at h
        exact .inr (.inl h.symm)
      · rename_i hne
        split at h
        · cases h
        · rename_i hoperation hresult
          simp only [Progress.answer.injEq, Except.ok.injEq] at h
          exact .inr (.inr ⟨stored, _, rfl, hne, hoperation, hresult, h.symm⟩)
        · cases h
  | _ => simp [afterScript] at h

theorem afterScript_ne_stuck (r : ReplayRequest) (reply : ScriptReply) :
    afterScript r reply ≠ .stuck := by
  unfold afterScript
  repeat' split
  all_goals simp

/-- **What one step of a call of `accept` can do.** -/
inductive TaskStep (platform : Platform) (settings : Settings) (task : Task) (db : Redis)
    (now : Nat) : Progress × List Write → Prop
  | stuck : TaskStep platform settings task db now (.stuck, [])
  /-- The envelope is refused before the script. -/
  | unplanned {sse : Bool} {err : ReplayHubError} (hphase : task.phase = .called sse) :
      TaskStep platform settings task db now (.answer (.error err), [])
  /-- The script ran, perhaps in part, and its reply is lost. -/
  | scriptLost {sse : Bool} {draw : Draw} {streamId : String} {input : ScriptInput}
      {run : ScriptReply × List Write} {writes : List Write} (hphase : task.phase = .called sse)
      (hplan : Planned platform settings task.envelope draw sse input)
      (hrun : ScriptRun db now input streamId run) (hpart : writes <+: run.2) :
      TaskStep platform settings task db now (.answer (.error .unavailable), writes)
  /-- The script admitted the claim. -/
  | admitted {sse : Bool} {draw : Draw} {streamId : String} {input : ScriptInput}
      {run : ScriptReply × List Write} (hphase : task.phase = .called sse)
      (hplan : Planned platform settings task.envelope draw sse input)
      (hrun : ScriptRun db now input streamId run) (hreply : run.1 = .claimAdmission) :
      TaskStep platform settings task db now (.next .admitted [], run.2)
  /-- The script has, or had, applied the message or the presence. -/
  | stored {sse : Bool} {draw : Draw} {streamId : String} {input : ScriptInput}
      {run : ScriptReply × List Write} {response : Stored} (hphase : task.phase = .called sse)
      (hplan : Planned platform settings task.envelope draw sse input)
      (hrun : ScriptRun db now input streamId run) (hreply : run.1 = .stored response)
      (hresponse : response ≠ .superseded)
      (hoperation : task.envelope.request.operation ≠ .claimRequest) :
      TaskStep platform settings task db now (.next (.persisting response) [], run.2)
  | scripted {sse : Bool} {draw : Draw} {streamId : String} {input : ScriptInput}
      {run : ScriptReply × List Write} {result : Except ReplayHubError ReplayResponse}
      (hphase : task.phase = .called sse)
      (hplan : Planned platform settings task.envelope draw sse input)
      (hrun : ScriptRun db now input streamId run)
      (hanswer : afterScript task.envelope.request run.1 = .answer result) :
      TaskStep platform settings task db now (.answer result, run.2)
  | timeLost (hphase : task.phase = .admitted) :
      TaskStep platform settings task db now (.answer (.error .unavailable), [])
  | lapsed (hphase : task.phase = .admitted) :
      TaskStep platform settings task db now (.next (.finishing .superseded) [], [])
  | dispatched (hphase : task.phase = .admitted) :
      TaskStep platform settings task db now
        (.next (.dispatching (remainingSeconds task.envelope.request now))
          [.dispatched task.envelope.request.requestId], [])
  | unclaimed {remaining : Nat} (hphase : task.phase = .dispatching remaining) :
      TaskStep platform settings task db now (.answer (.ok .pending), [])
  | claimed {remaining : Nat} {c : OwnershipClaim} (hphase : task.phase = .dispatching remaining)
      (hlifetime : c.leaseTtlSeconds.toNat = remaining) :
      TaskStep platform settings task db now (.next (.finishing (.claim c)) [], [])
  | undated {response : Stored} (hphase : task.phase = .finishing response) :
      TaskStep platform settings task db now (.answer (.ok .pending), [])
  | finishLost {response : Stored} {input : FinishInput} {run : FinishReply × List Write}
      {writes : List Write} (hphase : task.phase = .finishing response)
      (hinput : finishInput platform task.envelope.request response = some input)
      (hrun : FinishRun db now input run) (hpart : writes <+: run.2) :
      TaskStep platform settings task db now (.answer (.error .unavailable), writes)
  | unfinished {response : Stored} {result : ReplayResponse}
      (hphase : task.phase = .finishing response)
      (hresult : result = .superseded ∨ result = .pending) :
      TaskStep platform settings task db now (.answer (.ok result), [])
  | finished {response : Stored} {input : FinishInput} {writes : List Write}
      (hphase : task.phase = .finishing response)
      (hinput : finishInput platform task.envelope.request response = some input)
      (hrun : FinishRun db now input (.completed, writes)) :
      TaskStep platform settings task db now (.answer (.ok (finishedResponse response)), writes)
  | unpersisted {response : Stored} (hphase : task.phase = .persisting response) :
      TaskStep platform settings task db now (.answer (.ok .pending), [])
  | persisted {response : Stored} (hphase : task.phase = .persisting response) :
      TaskStep platform settings task db now
        (.answer ((appliedResult task.envelope.request response).map .applied), [])

theorem Task.step_sound (platform : Platform) (settings : Settings) (task : Task) (db : Redis)
    (now : Nat) (io : TaskIo) :
    TaskStep platform settings task db now (task.step platform settings db now io) := by
  unfold Task.step
  cases hphase : task.phase with
  | called sse =>
    cases io with
    -- the replay script has replied or was cut at some write
    | script draw streamId foreign io =>
      simp only
      cases hplan : planRequest platform settings task.envelope draw sse with
      | error err => exact .unplanned hphase
      | ok input =>
        have hrun := replayScript_sound db now input streamId foreign
        have hplanned := planRequest_ok hplan
        simp only
        cases io with
        | done =>
          simp only [runScript]
          -- its reply decides the next phase
          cases hafter : afterScript task.envelope.request
              (replayScript db now input streamId foreign).1 with
          | stuck => exact absurd hafter (afterScript_ne_stuck _ _)
          | answer result => exact .scripted hphase hplanned hrun hafter
          | next phase outs =>
            obtain ⟨rfl, ⟨hreply, rfl⟩ | ⟨response, hreply, hne, rfl, hoperation⟩⟩ :=
              afterScript_next hafter
            · exact .admitted hphase hplanned hrun hreply
            · exact .stored hphase hplanned hrun hreply hne hoperation
        | unreached => exact .scriptLost hphase hplanned hrun (List.nil_prefix)
        | aborted k => exact .scriptLost hphase hplanned hrun (List.take_prefix _ _)
    | _ => exact .stuck
  | admitted =>
    cases io with
    | time reached =>
      simp only
      -- the claim may lapse between the script and the dispatch
      split
      · exact .timeLost hphase
      · split
        · exact .lapsed hphase
        · exact .dispatched hphase
    | _ => exact .stuck
  | dispatching remaining =>
    cases io with
    | dispatched claim =>
      cases claim with
      | none => exact .unclaimed hphase
      | some c =>
        simp only
        split
        · rename_i hlifetime
          exact .claimed hphase hlifetime
        · exact .stuck
    | _ => exact .stuck
  | finishing response =>
    cases io with
    | finish io =>
      simp only
      cases hinput : finishInput platform task.envelope.request response with
      | none => exact .undated hphase
      | some input =>
        have hrun := finishScript_sound db now input
        simp only
        cases io with
        | unreached => exact .finishLost hphase hinput hrun (List.nil_prefix)
        | aborted k => exact .finishLost hphase hinput hrun (List.take_prefix _ _)
        | done =>
          simp only [runScript]
          -- the finish script completed, or the claim was taken over
          revert hrun
          rcases finishScript db now input with ⟨reply, writes⟩
          intro hrun
          cases reply with
          | completed => exact .finished hphase hinput hrun
          | superseded =>
            cases hrun with
            | left => exact .unfinished hphase (.inl rfl)
          | unknown =>
            cases hrun with
            | left => exact .unfinished hphase (.inr rfl)
    | _ => exact .stuck
  | persisting response =>
    cases io with
    | persisted ok =>
      simp only
      -- the response is answered once it is persisted
      split
      · exact .unpersisted hphase
      · exact .persisted hphase
    | _ => exact .stuck

/-- Where the writes of a step come from. -/
inductive WriteSource (platform : Platform) (settings : Settings) (task : Task) (db : Redis)
    (now : Nat) (writes : List Write) : Prop
  | silent (hnil : writes = [])
  | script {sse : Bool} {draw : Draw} {streamId : String} {input : ScriptInput}
      {run : ScriptReply × List Write} (hphase : task.phase = .called sse)
      (hplan : Planned platform settings task.envelope draw sse input)
      (hrun : ScriptRun db now input streamId run) (hpart : writes <+: run.2)
  | finish {response : Stored} {input : FinishInput} {run : FinishReply × List Write}
      (hphase : task.phase = .finishing response)
      (hinput : finishInput platform task.envelope.request response = some input)
      (hrun : FinishRun db now input run) (hpart : writes <+: run.2)

namespace TaskStep

variable {platform : Platform} {settings : Settings} {task : Task} {db : Redis} {now : Nat}
  {result : Progress × List Write}

theorem source (h : TaskStep platform settings task db now result) :
    WriteSource platform settings task db now result.2 := by
  cases h with
  | scriptLost hphase hplan hrun hpart => exact .script hphase hplan hrun hpart
  | admitted hphase hplan hrun => exact .script hphase hplan hrun (List.prefix_refl _)
  | stored hphase hplan hrun => exact .script hphase hplan hrun (List.prefix_refl _)
  | scripted hphase hplan hrun => exact .script hphase hplan hrun (List.prefix_refl _)
  | finishLost hphase hinput hrun hpart => exact .finish hphase hinput hrun hpart
  | finished hphase hinput hrun => exact .finish hphase hinput hrun (List.prefix_refl _)
  | _ => exact .silent rfl

/-- A step sets no memo but that of its own request. -/
theorem memo_id (h : TaskStep platform settings task db now result) {id : Uuid} {memo : Memo}
    {deadline : Option Nat} (hmem : Write.setMemo id memo deadline ∈ result.2) :
    id = task.envelope.request.requestId := by
  cases h.source with
  | silent hnil =>
    rw [hnil] at hmem
    cases hmem
  | script hphase hplan hrun hpart =>
    exact (hrun.memo_id (hpart.subset hmem)).trans hplan.requestId
  | finish hphase hinput hrun hpart =>
    obtain ⟨_, -, rfl⟩ := finishInput_eq hinput
    exact (hrun.memo_eq (hpart.subset hmem)).1

/-- A step of a call leaves the claims alone. -/
theorem claims_notMem (h : TaskStep platform settings task db now result) (key : String)
    (slot : Option (Expiring ClaimsValue)) : Write.setClaims key slot ∉ result.2 := by
  intro hmem
  cases h.source with
  | silent hnil =>
    rw [hnil] at hmem
    cases hmem
  | script hphase hplan hrun hpart => exact hrun.claims_notMem key slot (hpart.subset hmem)
  | finish hphase hinput hrun hpart => exact hrun.claims_notMem key slot (hpart.subset hmem)

end TaskStep

/-! ### A step of the hub -/

/-- **What one input can do to the hub.** -/
inductive HubStep (platform : Platform) (settings : Settings) (h : HubState) :
    HubInput → HubState × List HubOutput → Prop
  | idle {input : HubInput} : HubStep platform settings h input (h, [])
  | accepted {i : Nat} {envelope : ReplayEnvelope} {sse : Bool} (hfree : h.tasks i = none) :
      HubStep platform settings h (.accept i envelope sse)
        ({ h with tasks := Function.update h.tasks i (some ⟨envelope, .called sse⟩) }, [])
  | stopped {i : Nat} :
      HubStep platform settings h (.stop i) ({ h with tasks := Function.update h.tasks i none }, [])
  | commanded {t now : Nat} {command : Command} (hnow : h.now ≤ now) :
      HubStep platform settings h (.command t command)
        ({ h with db := h.db.writes (command.writes h.db now), now }, [])
  | moved {i t now : Nat} {io : TaskIo} {task : Task} {phase : TaskPhase} {outs : List HubOutput}
      {writes : List Write} (hnow : h.now ≤ now) (htask : h.tasks i = some task)
      (hstep : TaskStep platform settings task h.db now (.next phase outs, writes)) :
      HubStep platform settings h (.proceed i t io)
        ({ db := h.db.writes writes
           now
           tasks := Function.update h.tasks i (some { task with phase }) }, outs)
  | answered {i t now : Nat} {io : TaskIo} {task : Task}
      {result : Except ReplayHubError ReplayResponse} {writes : List Write} (hnow : h.now ≤ now)
      (htask : h.tasks i = some task)
      (hstep : TaskStep platform settings task h.db now (.answer result, writes)) :
      HubStep platform settings h (.proceed i t io)
        ({ db := h.db.writes writes, now, tasks := Function.update h.tasks i none },
          [.answered task.envelope result])

/-- A call after one of them was replaced. -/
theorem mem_update {tasks : Nat → Option Task} {i j : Nat} {slot : Option Task} {task : Task}
    (h : task ∈ Function.update tasks i slot j) : task ∈ slot ∨ task ∈ tasks j := by
  by_cases hj : j = i
  · subst hj
    rw [Function.update_self] at h
    exact .inl h
  · rw [Function.update_of_ne hj] at h
    exact .inr h

theorem HubState.step_sound (platform : Platform) (settings : Settings) (h : HubState)
    (input : HubInput) : HubStep platform settings h input (h.step platform settings input) := by
  cases input with
  | accept i envelope sse =>
    cases hslot : h.tasks i with
    | some task => simpa [HubState.step, hslot] using HubStep.idle
    | none => simpa [HubState.step, hslot] using HubStep.accepted hslot
  | stop i => exact .stopped
  | command t command => exact .commanded (Nat.le_max_left _ _)
  | proceed i t io =>
    cases htask : h.tasks i with
    | none => simpa [HubState.step, htask] using HubStep.idle
    | some task =>
      have hnow := Nat.le_max_left h.now t
      have hstep := task.step_sound platform settings h.db (max h.now t) io
      simp only [HubState.step, htask]
      revert hstep
      rcases task.step platform settings h.db (max h.now t) io with ⟨progress, writes⟩
      intro hstep
      cases progress with
      | stuck => exact .idle
      | next phase outs => exact .moved hnow htask hstep
      | answer result => exact .answered hnow htask hstep

end AgentHub.Hub
