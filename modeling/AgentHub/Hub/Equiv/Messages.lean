import AgentHub.Hub.Equiv.Script

/-!
# Messages are entered once

`message_once`: whatever the calls for a message do, and wherever their scripts are aborted, the
stream has at most one entry for its request; once a call has answered with a result there is one,
and the result is the one that was built with it.
-/

namespace AgentHub.Hub

open AgentHub.Json AgentHub.Outbox

variable {platform : Platform} {settings : Settings}

/-! ### Entries -/

/-- The entries of the stream that name a request. -/
def entriesOf (stream : List StreamEntry) (id : Uuid) : List StreamEntry :=
  stream.filter fun entry => entry.fields.lookup "client_msg_id" = some id.toString

theorem entriesOf_append (a b : List StreamEntry) (id : Uuid) :
    entriesOf (a ++ b) id = entriesOf a id ++ entriesOf b id := by
  simp [entriesOf]

theorem lookup_entryFields (p : PreparedMessage) (clientMsgId originHub : String) :
    (entryFields p clientMsgId originHub).lookup "client_msg_id" = some clientMsgId := by
  simp [entryFields, List.lookup_cons]

/-- The entry and the message are those a script writes for a request. -/
def Built (platform : Platform) (settings : Settings) (e : ReplayEnvelope) (entry : StreamEntry)
    (message : Message) : Prop :=
  ∃ draw d, ReplayRequest.draft e.request = .ok d ∧
    entry.fields = entryFields (prepareMessage platform settings.sessionId draw d)
      e.request.requestId.toString e.hubIdentity ∧
    message = { replayMessage (prepareMessage platform settings.sessionId draw d)
      e.request.requestId.toString e.hubIdentity with streamId := some entry.streamId }

/-- A request of these operations is a message. -/
def IsMessage (e : ReplayEnvelope) : Prop :=
  e.request.operation = .send ∨ e.request.operation = .ack

theorem Planned.effect_message {e : ReplayEnvelope} {draw : Draw} {sse : Bool}
    {input : ScriptInput} (h : Planned platform settings e draw sse input) (hmsg : IsMessage e) :
    ∃ d, ReplayRequest.draft e.request = .ok d ∧
      input.effect = .message (replayPlan platform settings e draw sse d) := by
  have heffect := h.effect
  unfold planEffect at heffect
  rcases hmsg with hoperation | hoperation <;> simp only [hoperation] at heffect <;>
    exact messagePlan_ok heffect

/-- Only a message is planned as one. -/
theorem Planned.isMessage {e : ReplayEnvelope} {draw : Draw} {sse : Bool} {input : ScriptInput}
    (h : Planned platform settings e draw sse input) {plan : MessagePlan}
    (heffect : input.effect = .message plan) : IsMessage e := by
  have hplan := h.effect
  unfold planEffect at hplan
  cases hoperation : e.request.operation <;> simp only [hoperation] at hplan
  case send => exact .inl hoperation
  case ack => exact .inr hoperation
  case presence =>
    obtain ⟨presence, hpresence⟩ := presencePlan_ok hplan
    rw [heffect] at hpresence
    cases hpresence
  case claimRequest =>
    have hclaim := claimPlan_ok hplan
    rw [heffect] at hclaim
    cases hclaim

theorem applyEffect_entry {db : Redis} {now : Nat} {input : ScriptInput} {streamId : String}
    {w : Write} (hmem : w ∈ (applyEffect db now input streamId).2) {entry : StreamEntry}
    (hentry : w.entry? = some entry) :
    ∃ plan, input.effect = .message plan ∧ entry = ⟨streamId, plan.fields⟩ := by
  cases heffect : input.effect with
  | claim key agent =>
    simp only [applyEffect, heffect, List.mem_singleton] at hmem
    subst hmem
    cases hentry
  | presence presence =>
    simp only [applyEffect, heffect] at hmem
    split at hmem
    · rcases List.mem_pair.mp hmem with rfl | rfl <;> cases hentry
    · simp only [List.mem_cons, List.not_mem_nil, or_false] at hmem
      rcases hmem with rfl | rfl | rfl | rfl | rfl <;> cases hentry
  | message plan =>
    simp only [applyEffect, heffect, messageWrites, List.mem_append, List.mem_cons,
      List.not_mem_nil, or_false] at hmem
    rcases hmem with (rfl | rfl | h) | rfl
    · cases hentry
    · simp only [Write.entry?, Option.some.injEq] at hentry
      exact ⟨plan, rfl, hentry.symm⟩
    · rw [(messageFollowUps_mem h).1] at hentry
      cases hentry
    · cases hentry

/-- Every entry a call adds names its own request. -/
theorem TaskStep.entry_id {task : Task} {db : Redis} {now : Nat} {result : Progress × List Write}
    (h : TaskStep platform settings task db now result) {entry : StreamEntry}
    (hmem : entry ∈ result.2.filterMap Write.entry?) :
    entry.fields.lookup "client_msg_id" = some task.envelope.request.requestId.toString := by
  obtain ⟨w, hw, hentry⟩ := List.mem_filterMap.mp hmem
  cases h.source with
  -- the script is the only source of an entry
  | silent hnil =>
    rw [hnil] at hw
    cases hw
  | finish hphase hinput hrun hpart =>
    have hw' := hpart.subset hw
    cases hrun with
    | left => cases hw'
    | completed =>
      rw [List.mem_singleton.mp hw'] at hentry
      cases hentry
  | script hphase hplan hrun hpart =>
    have hw' := hpart.subset hw
    cases hrun with
    | applied hmemo hlive =>
      obtain ⟨plan, heffect, rfl⟩ := applyEffect_entry hw' hentry
      obtain ⟨d, -, hplanned⟩ := hplan.effect_message (hplan.isMessage heffect)
      rw [heffect, Effect.message.injEq] at hplanned
      subst hplanned
      exact lookup_entryFields _ _ _
    | _ => cases hw'

/-! ### The memo of a message -/

/-- The request is remembered as applied with this response. -/
def AppliedAs (e : ReplayEnvelope) (db : Redis) (response : Stored) : Prop :=
  ∃ slot expiry, db.memos e.request.requestId = some slot ∧
    slot.value.state = .applied response expiry

/-- What the keys say about a message: nothing, or a memo that stays, with at most one entry, and
exactly the entry of the response once that is remembered. -/
def MessageKept (platform : Platform) (settings : Settings) (e : ReplayEnvelope) (db : Redis) :
    Prop :=
  (db.memos e.request.requestId = none ∧ entriesOf db.stream e.request.requestId = []) ∨
  ((∃ memo, db.memos e.request.requestId = some ⟨memo, none⟩) ∧
    (entriesOf db.stream e.request.requestId).length ≤ 1 ∧
    ∀ response, AppliedAs e db response → ∃ entry message,
      entriesOf db.stream e.request.requestId = [entry] ∧ Built platform settings e entry message ∧
        response = .message message)

/-- The keys a list of writes leaves alone. -/
theorem MessageKept.frame {e : ReplayEnvelope} {db : Redis} (h : MessageKept platform settings e db)
    {ws : List Write}
    (hmemo : (db.writes ws).memos e.request.requestId = db.memos e.request.requestId)
    (hentries : entriesOf (ws.filterMap Write.entry?) e.request.requestId = []) :
    MessageKept platform settings e (db.writes ws) := by
  have hstream : entriesOf (db.writes ws).stream e.request.requestId =
      entriesOf db.stream e.request.requestId := by
    rw [Redis.stream_writes, entriesOf_append, hentries, List.append_nil]
  unfold MessageKept AppliedAs at h ⊢
  rw [hmemo, hstream]
  exact h

/-- A script that finds no memo finds no entry either. -/
theorem MessageKept.fresh {e : ReplayEnvelope} {db : Redis} (h : MessageKept platform settings e db)
    {now : Nat} (hmemo : readKey (db.memos e.request.requestId) now = none) :
    db.memos e.request.requestId = none ∧ entriesOf db.stream e.request.requestId = [] := by
  rcases h with h | ⟨⟨memo, hkept⟩, -⟩
  · exact h
  · rw [hkept, readKey_permanent] at hmemo
    cases hmemo

/-- A memo that stays and is not applied, with at most one entry. -/
theorem MessageKept.of_pending {e : ReplayEnvelope} {db : Redis} (fingerprint : String)
    (hmemo : db.memos e.request.requestId = some ⟨⟨fingerprint, .pending⟩, none⟩)
    (hentries : (entriesOf db.stream e.request.requestId).length ≤ 1) :
    MessageKept platform settings e db := by
  refine .inr ⟨⟨_, hmemo⟩, hentries, ?_⟩
  rintro response ⟨slot, expiry, hslot, hstate⟩
  rw [hmemo, Option.some.injEq] at hslot
  subst hslot
  cases hstate

/-- A memo that is applied, with the entry of its response. -/
theorem MessageKept.of_applied {e : ReplayEnvelope} {db : Redis} (fingerprint : String)
    {entry : StreamEntry} {message : Message} (hbuilt : Built platform settings e entry message)
    (hmemo : db.memos e.request.requestId =
      some ⟨⟨fingerprint, .applied (.message message) none⟩, none⟩)
    (hentries : entriesOf db.stream e.request.requestId = [entry]) :
    MessageKept platform settings e db := by
  refine .inr ⟨⟨_, hmemo⟩, by simp [hentries], ?_⟩
  rintro response ⟨slot, expiry, hslot, hstate⟩
  rw [hmemo, Option.some.injEq] at hslot
  subst hslot
  simp only [MemoState.applied.injEq] at hstate
  exact ⟨entry, message, hentries, hbuilt, hstate.1.symm⟩

/-- The writes of a message, all of them or those made before the run was aborted: its reservation,
its entry, writes that touch neither, and its completion. -/
theorem MessageKept.of_writes {e : ReplayEnvelope} {db : Redis}
    (hfresh : db.memos e.request.requestId = none ∧
      entriesOf db.stream e.request.requestId = []) {entry : StreamEntry} {message : Message}
    (hbuilt : Built platform settings e entry message) {fingerprint : String} {rest : List Write}
    (hentry : ∀ w ∈ rest, w.entry? = none)
    (hmemo : ∀ id memo deadline, Write.setMemo id memo deadline ∉ rest) {ws : List Write}
    (hpart : ws <+: (.setMemo e.request.requestId ⟨fingerprint, .pending⟩ none ::
      .addEntry entry :: rest) ++ [.setMemo e.request.requestId
        ⟨fingerprint, .applied (.message message) none⟩ none]) :
    MessageKept platform settings e (db.writes ws) := by
  -- the new entry is the only one of this request
  have hown : entriesOf [entry] e.request.requestId = [entry] := by
    obtain ⟨draw, d, -, hfields, -⟩ := hbuilt
    simp [entriesOf, hfields, lookup_entryFields]
  have hmemos : ∀ (db' : Redis) (part : List Write), part <+: .addEntry entry :: rest →
      (db'.writes part).memos e.request.requestId = db'.memos e.request.requestId := by
    intro db' part hpart
    rcases db'.memos_writes part e.request.requestId with hkept | ⟨memo, deadline, hmem, -⟩
    · exact hkept
    · rcases List.mem_cons.mp (hpart.subset hmem) with h | h
      · cases h
      · exact absurd h (hmemo _ _ _)
  have hentries : ∀ part : List Write, part <+: .addEntry entry :: rest →
      (entriesOf (part.filterMap Write.entry?) e.request.requestId).length ≤ 1 := by
    intro part hpart
    rcases part with _ | ⟨w, part⟩
    · simp [entriesOf]
    · obtain ⟨rfl, htail⟩ := List.cons_prefix_cons.mp hpart
      have hnone : part.filterMap Write.entry? = [] :=
        List.filterMap_eq_nil_iff.mpr fun w hw => hentry w (htail.subset hw)
      simp [Write.entry?, hnone, hown]
  rcases List.prefix_concat_iff.mp hpart with rfl | hpart
  · -- The run went through.
    have hnone : rest.filterMap Write.entry? = [] := List.filterMap_eq_nil_iff.mpr hentry
    refine .of_applied fingerprint hbuilt ?_ ?_
    · rw [Redis.writes_append, Redis.writes_cons, Redis.writes_nil]
      exact Function.update_self _ _ _
    · have hfound : (Write.setMemo e.request.requestId ⟨fingerprint, .pending⟩ none ::
          .addEntry entry :: rest ++ [Write.setMemo e.request.requestId
            ⟨fingerprint, .applied (.message message) none⟩ none]).filterMap Write.entry? =
          [entry] := by
        simp [List.filterMap_cons, Write.entry?, hnone]
      rw [Redis.stream_writes, entriesOf_append, hfresh.2, hfound, hown, List.nil_append]
  · rcases ws with _ | ⟨w, ws⟩
    · exact .inl hfresh
    · -- The run was aborted after the reservation.
      obtain ⟨rfl, htail⟩ := List.cons_prefix_cons.mp hpart
      refine .of_pending fingerprint ?_ ?_
      · rw [Redis.writes_cons, hmemos _ ws htail]
        exact Function.update_self _ _ _
      · rw [Redis.stream_writes, entriesOf_append, hfresh.2, List.nil_append]
        exact hentries ws htail

/-- A run of the script for a message, perhaps in part. -/
theorem MessageKept.script {e : ReplayEnvelope} {db : Redis}
    (h : MessageKept platform settings e db) (hmsg : IsMessage e) {draw : Draw} {sse : Bool}
    {input : ScriptInput} (hplan : Planned platform settings e draw sse input) {now : Nat}
    {streamId : String} {run : ScriptReply × List Write}
    (hrun : ScriptRun db now input streamId run) {ws : List Write} (hpart : ws <+: run.2) :
    MessageKept platform settings e (db.writes ws) := by
  cases hrun with
  | applied hmemo hlive =>
    obtain ⟨d, hdraft, heffect⟩ := hplan.effect_message hmsg
    rw [hplan.requestId] at hmemo
    simp only [applyEffect, heffect, messageWrites, saveMemo, hplan.requestId] at hpart
    refine MessageKept.of_writes (h.fresh hmemo) ?_ ?_ ?_ hpart
    · exact ⟨draw, d, hdraft, rfl, rfl⟩
    · exact fun w hw => (messageFollowUps_mem hw).1
    · exact fun id memo deadline hw => (messageFollowUps_mem hw).2.1 id memo deadline rfl
  | _ =>
    rw [List.prefix_nil.mp hpart]
    exact h

/-- A response the script passes on is the remembered one. -/
theorem appliedAs_of_stored {e : ReplayEnvelope} (hmsg : IsMessage e) {draw : Draw} {sse : Bool}
    {input : ScriptInput} (hplan : Planned platform settings e draw sse input) {db : Redis}
    {now : Nat} {streamId : String} {run : ScriptReply × List Write}
    (hrun : ScriptRun db now input streamId run) {response : Stored}
    (hreply : run.1 = .stored response) (hresponse : response ≠ .superseded) :
    AppliedAs e (db.writes run.2) response := by
  obtain ⟨d, -, heffect⟩ := hplan.effect_message hmsg
  cases hrun with
  -- a memo of an earlier run: its answer is the one stored
  | @cached record hmemo =>
    simp only [cachedReply, heffect] at hreply
    split at hreply
    · cases hreply
    · split at hreply
      · rename_i stored expiry hstate
        cases hreply
        rw [hplan.requestId] at hmemo
        obtain ⟨deadline, hslot, -⟩ := readKey_eq_some.mp hmemo
        exact ⟨_, expiry, hslot, hstate⟩
      · cases hreply
  | expired =>
    cases hreply
    exact absurd rfl hresponse
  | refused hmemo hlive hrefusal => rcases hrefusal with rfl | rfl <;> cases hreply
  -- the answer was stored by this run
  | applied =>
    simp only [applyEffect, heffect, ScriptReply.stored.injEq] at hreply
    subst hreply
    refine ⟨⟨⟨input.fingerprint, _⟩, none⟩, none, ?_, rfl⟩
    simp only [applyEffect, heffect, saveMemo, hplan.requestId]
    rw [Redis.writes_append, Redis.writes_cons, Redis.writes_nil]
    exact Function.update_self _ _ _

/-- What is remembered as applied stays so. -/
theorem AppliedAs.script {e : ReplayEnvelope} {db : Redis} {response : Stored}
    (h : AppliedAs e db response) (hkept : MessageKept platform settings e db) {draw : Draw}
    {sse : Bool} {input : ScriptInput} (hplan : Planned platform settings e draw sse input)
    {now : Nat} {streamId : String} {run : ScriptReply × List Write}
    (hrun : ScriptRun db now input streamId run) {ws : List Write} (hpart : ws <+: run.2) :
    AppliedAs e (db.writes ws) response := by
  cases hrun with
  | applied hmemo hlive =>
    rw [hplan.requestId] at hmemo
    obtain ⟨slot, expiry, hslot, -⟩ := h
    rw [(hkept.fresh hmemo).1] at hslot
    cases hslot
  | _ =>
    rw [List.prefix_nil.mp hpart]
    exact h

/-! ### Runs -/

/-- A call for the message carries its envelope and runs the script or persists its response. -/
def Task.Serves (e : ReplayEnvelope) (db : Redis) (task : Task) : Prop :=
  task.envelope.request.requestId = e.request.requestId →
    task.envelope = e ∧ ((∃ sse, task.phase = .called sse) ∨
      ∃ response, task.phase = .persisting response ∧ AppliedAs e db response)

/-- **The invariant of a message** over a run with the outputs `outs`. -/
structure MessageInv (platform : Platform) (settings : Settings) (e : ReplayEnvelope)
    (h : HubState) (outs : List HubOutput) : Prop where
  kept : MessageKept platform settings e h.db
  tasks : ∀ i, ∀ task ∈ h.tasks i, task.Serves e h.db
  answered : ∀ envelope result, .answered envelope (.ok (.applied result)) ∈ outs →
    envelope.request.requestId = e.request.requestId →
    ∃ response, AppliedAs e h.db response ∧ appliedResult e.request response = .ok result

namespace MessageInv

variable {e : ReplayEnvelope} {h h' : HubState} {outs : List HubOutput}

theorem init (platform : Platform) (settings : Settings) (e : ReplayEnvelope) :
    MessageInv platform settings e {} [] where
  kept := .inl ⟨rfl, rfl⟩
  tasks := by simp
  answered := by simp

/-- A step that keeps what is remembered, whose calls are old ones or fit, and which answers only
what is remembered. -/
theorem extend (hinv : MessageInv platform settings e h outs) {more : List HubOutput}
    (hkept : MessageKept platform settings e h'.db)
    (hmono : ∀ response, AppliedAs e h.db response → AppliedAs e h'.db response)
    (htasks : ∀ i, ∀ task ∈ h'.tasks i, task ∈ h.tasks i ∨ task.Serves e h'.db)
    (hmore : ∀ envelope result, .answered envelope (.ok (.applied result)) ∈ more →
      envelope.request.requestId = e.request.requestId →
      ∃ response, AppliedAs e h'.db response ∧ appliedResult e.request response = .ok result) :
    MessageInv platform settings e h' (outs ++ more) where
  kept := hkept
  tasks i task htask := by
    rcases htasks i task htask with hold | hnew
    · intro hid
      obtain ⟨henvelope, hphase⟩ := hinv.tasks i task hold hid
      refine ⟨henvelope, hphase.imp_right ?_⟩
      rintro ⟨response, hpersisting, happlied⟩
      exact ⟨response, hpersisting, hmono response happlied⟩
    · exact hnew
  answered envelope result hmem hid := by
    rcases List.mem_append.mp hmem with hmem | hmem
    · obtain ⟨response, happlied, hresult⟩ := hinv.answered envelope result hmem hid
      exact ⟨response, hmono response happlied, hresult⟩
    · exact hmore envelope result hmem hid

/-- Writes of calls for other requests, and of other programs. -/
theorem frame (hinv : MessageInv platform settings e h outs) {ws : List Write}
    (hmemo : (h.db.writes ws).memos e.request.requestId = h.db.memos e.request.requestId)
    (hentries : entriesOf (ws.filterMap Write.entry?) e.request.requestId = []) :
    MessageKept platform settings e (h.db.writes ws) ∧
      ∀ response, AppliedAs e h.db response → AppliedAs e (h.db.writes ws) response := by
  refine ⟨hinv.kept.frame hmemo hentries, ?_⟩
  intro response happlied
  unfold AppliedAs at happlied ⊢
  rw [hmemo]
  exact happlied

end MessageInv

/-- A call for another request leaves those of this one alone. -/
theorem TaskStep.frame {task : Task} {db : Redis} {now : Nat} {result : Progress × List Write}
    (h : TaskStep platform settings task db now result) {id : Uuid}
    (hid : task.envelope.request.requestId ≠ id) :
    (db.writes result.2).memos id = db.memos id ∧
      entriesOf (result.2.filterMap Write.entry?) id = [] := by
  constructor
  · rcases db.memos_writes result.2 id with hkept | ⟨memo, deadline, hmem, -⟩
    · exact hkept
    · exact absurd (h.memo_id hmem).symm hid
  · unfold entriesOf
    rw [List.filter_eq_nil_iff]
    intro entry hentry
    rw [h.entry_id hentry]
    simpa using fun heq => hid (Uuid.toString_injective heq)

theorem Command.frame (command : Command) (db : Redis) (now : Nat) (id : Uuid) :
    (db.writes (command.writes db now)).memos id = db.memos id ∧
      entriesOf ((command.writes db now).filterMap Write.entry?) id = [] := by
  cases command with
  | claim c => exact ⟨rfl, rfl⟩
  | announce presence seconds => exact ⟨rfl, rfl⟩
  | post entry =>
    simp only [Command.writes]
    split
    · exact ⟨rfl, rfl⟩
    · rename_i hforeign
      refine ⟨rfl, ?_⟩
      have hnone : entry.fields.lookup "client_msg_id" = none :=
        Option.not_isSome_iff_eq_none.mp hforeign
      simp [entriesOf, Write.entry?, hnone]

namespace MessageInv

variable {e : ReplayEnvelope} {h : HubState} {outs : List HubOutput}

/-- What a call for the message writes. -/
theorem own (hinv : MessageInv platform settings e h outs) (hmsg : IsMessage e) {i now : Nat}
    {task : Task} (htask : h.tasks i = some task)
    (hid : task.envelope.request.requestId = e.request.requestId)
    {result : Progress × List Write} (hstep : TaskStep platform settings task h.db now result) :
    MessageKept platform settings e (h.db.writes result.2) ∧
      ∀ response, AppliedAs e h.db response → AppliedAs e (h.db.writes result.2) response := by
  obtain ⟨henvelope, hphases⟩ := hinv.tasks i task htask hid
  cases hstep.source with
  | silent hnil =>
    rw [hnil]
    exact ⟨hinv.kept, fun _ happlied => happlied⟩
  | script hphase hplan hrun hpart =>
    rw [henvelope] at hplan
    exact ⟨hinv.kept.script hmsg hplan hrun hpart,
      fun _ happlied => happlied.script hinv.kept hplan hrun hpart⟩
  | finish hphase hinput hrun hpart =>
    simp [hphase] at hphases

/-- A call for the message moves on to persist the response that is remembered. -/
theorem next (hinv : MessageInv platform settings e h outs) (hmsg : IsMessage e) {i now : Nat}
    {task : Task} (htask : h.tasks i = some task)
    (hid : task.envelope.request.requestId = e.request.requestId) {phase : TaskPhase}
    {more : List HubOutput} {writes : List Write}
    (hstep : TaskStep platform settings task h.db now (.next phase more, writes)) :
    more = [] ∧ ∃ response, phase = .persisting response ∧
      AppliedAs e (h.db.writes writes) response := by
  obtain ⟨henvelope, hphases⟩ := hinv.tasks i task htask hid
  cases hstep with
  | admitted hphase hplan hrun hreply =>
    rw [henvelope] at hplan
    obtain ⟨d, -, heffect⟩ := hplan.effect_message hmsg
    cases hrun with
    | cached => exact absurd hreply (cachedReply_ne_admission _ _ _ _)
    | applied => simp [applyEffect, heffect] at hreply
    | refused hmemo hlive hrefusal => rcases hrefusal with rfl | rfl <;> cases hreply
    | expired => cases hreply
  | stored hphase hplan hrun hreply hresponse =>
    rw [henvelope] at hplan
    exact ⟨rfl, _, rfl, appliedAs_of_stored hmsg hplan hrun hreply hresponse⟩
  | lapsed hphase => simp [hphase] at hphases
  | dispatched hphase => simp [hphase] at hphases
  | claimed hphase => simp [hphase] at hphases

/-- The result a call for the message answers with is that of the remembered response. -/
theorem answer (hinv : MessageInv platform settings e h outs) (hmsg : IsMessage e) {i now : Nat}
    {task : Task} (htask : h.tasks i = some task)
    (hid : task.envelope.request.requestId = e.request.requestId) {result : Value}
    {writes : List Write}
    (hstep : TaskStep platform settings task h.db now (.answer (.ok (.applied result)), writes)) :
    ∃ response, AppliedAs e (h.db.writes writes) response ∧
      appliedResult e.request response = .ok result := by
  obtain ⟨henvelope, hphases⟩ := hinv.tasks i task htask hid
  generalize hprogress : Progress.answer (.ok (.applied result)) = progress at hstep
  cases hstep with
  | scripted hphase hplan hrun hanswer =>
    cases hprogress
    obtain hpending | hsuperseded | ⟨_, _, -, -, hclaim, -⟩ := afterScript_answer hanswer
    · cases hpending
    · -- a message is never a claim
      cases hsuperseded
    · rw [henvelope] at hclaim
      rcases hmsg with hoperation | hoperation <;> simp [hoperation] at hclaim
  | finished hphase => simp [hphase] at hphases
  | unfinished hphase => simp [hphase] at hphases
  | @persisted response hphase =>
    simp only [hphase, reduceCtorEq, exists_false, TaskPhase.persisting.injEq, false_or] at hphases
    obtain ⟨_, rfl, happlied⟩ := hphases
    refine ⟨response, happlied, ?_⟩
    -- the answer is persisted, with the response the memo holds
    simp only [Progress.answer.injEq] at hprogress
    rw [henvelope] at hprogress
    cases hresult : appliedResult e.request response with
    | error err => simp [hresult, Except.map] at hprogress
    | ok value =>
      simp only [hresult, Except.map, Except.ok.injEq, ReplayResponse.applied.injEq] at hprogress
      rw [hprogress]
  | _ => cases hprogress

theorem step (hinv : MessageInv platform settings e h outs) (hmsg : IsMessage e)
    (input : HubInput)
    (haccept : ∀ i envelope sse, input = .accept i envelope sse →
      envelope.request.requestId = e.request.requestId → envelope = e) :
    MessageInv platform settings e (h.step platform settings input).1
      (outs ++ (h.step platform settings input).2) := by
  have hstep := h.step_sound platform settings input
  revert hstep
  generalize h.step platform settings input = reached
  intro hstep
  cases hstep with
  -- by what the step does; tasks of other requests leave memo and entries alone
  | idle =>
    rw [List.append_nil]
    exact hinv
  | @accepted i envelope sse hfree =>
    refine hinv.extend hinv.kept (fun _ happlied => happlied) ?_ (by simp)
    intro j task htask
    rcases mem_update htask with hnew | hold
    · cases hnew
      exact .inr fun hid => ⟨haccept i envelope sse rfl hid, .inl ⟨sse, rfl⟩⟩
    · exact .inl hold
  | stopped =>
    refine hinv.extend hinv.kept (fun _ happlied => happlied) ?_ (by simp)
    intro j task htask
    rcases mem_update htask with hnew | hold
    · cases hnew
    · exact .inl hold
  | @commanded t now command hnow =>
    obtain ⟨hmemo, hentries⟩ := command.frame h.db now e.request.requestId
    obtain ⟨hkept, hmono⟩ := hinv.frame hmemo hentries
    exact hinv.extend hkept hmono (fun _ _ htask => .inl htask) (by simp)
  | @moved i t now io task phase more writes hnow htask hstep =>
    by_cases hid : task.envelope.request.requestId = e.request.requestId
    · obtain ⟨hkept, hmono⟩ := hinv.own hmsg htask hid hstep
      obtain ⟨rfl, response, rfl, happlied⟩ := hinv.next hmsg htask hid hstep
      refine hinv.extend hkept hmono ?_ (by simp)
      intro j task' htask'
      rcases mem_update htask' with hnew | hold
      · cases hnew
        exact .inr fun _ => ⟨(hinv.tasks i task htask hid).1, .inr ⟨response, rfl, happlied⟩⟩
      · exact .inl hold
    · obtain ⟨hmemo, hentries⟩ := hstep.frame hid
      obtain ⟨hkept, hmono⟩ := hinv.frame hmemo hentries
      refine hinv.extend hkept hmono ?_ ?_
      · intro j task' htask'
        rcases mem_update htask' with hnew | hold
        · cases hnew
          exact .inr fun hid' => absurd hid' hid
        · exact .inl hold
      · intro envelope result hmem
        cases hstep <;> simp at hmem
  | @answered i t now io task result writes hnow htask hstep =>
    have htasks : ∀ j, ∀ task' ∈ Function.update h.tasks i none j, task' ∈ h.tasks j ∨
        task'.Serves e (h.db.writes writes) := by
      intro j task' htask'
      rcases mem_update htask' with hnew | hold
      · cases hnew
      · exact .inl hold
    by_cases hid : task.envelope.request.requestId = e.request.requestId
    · obtain ⟨hkept, hmono⟩ := hinv.own hmsg htask hid hstep
      refine hinv.extend hkept hmono htasks ?_
      intro envelope value hmem _
      simp only [List.mem_singleton, HubOutput.answered.injEq] at hmem
      obtain ⟨rfl, rfl⟩ := hmem
      exact hinv.answer hmsg htask hid hstep
    · obtain ⟨hmemo, hentries⟩ := hstep.frame hid
      obtain ⟨hkept, hmono⟩ := hinv.frame hmemo hentries
      refine hinv.extend hkept hmono htasks ?_
      intro envelope value hmem hid'
      simp only [List.mem_singleton, HubOutput.answered.injEq] at hmem
      obtain ⟨rfl, -⟩ := hmem
      exact absurd hid' hid

end MessageInv

/-- The invariant of a message holds in every run whose calls for its request carry its envelope. -/
theorem messageInv_exec (platform : Platform) (settings : Settings) {e : ReplayEnvelope}
    (hmsg : IsMessage e) (is : List HubInput)
    (hsame : ∀ i envelope sse, HubInput.accept i envelope sse ∈ is →
      envelope.request.requestId = e.request.requestId → envelope = e) :
    MessageInv platform settings e ((HubState.machine platform settings).exec {} is).1
      ((HubState.machine platform settings).exec {} is).2 := by
  revert hsame
  refine Machine.exec_induction (HubState.machine platform settings)
    (P := fun is h outs => (∀ i envelope sse, HubInput.accept i envelope sse ∈ is →
      envelope.request.requestId = e.request.requestId → envelope = e) →
      MessageInv platform settings e h outs)
    (fun _ => MessageInv.init platform settings e) ?_ is
  intro is h outs input ih hsame
  refine (ih fun i envelope sse hmem => hsame i envelope sse (List.mem_append_left _ hmem)).step
    hmsg input ?_
  rintro i envelope sse rfl hid
  exact hsame i envelope sse (by simp) hid

end AgentHub.Hub
