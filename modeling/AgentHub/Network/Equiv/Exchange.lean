import AgentHub.Hub.Equiv.Claims
import AgentHub.Hub.Equiv.Messages
import AgentHub.Network.Exchange
import AgentHub.Outbox.Equiv.Answers

/-!
# A retained message is entered once

`exactly_once` couples the journal of a client with the memos of its hub: a run of both is a run of
each, in which the hub sees a request of the client only with the envelope the client sent, and the
client records an answer only if the hub gave it.
-/

namespace AgentHub.Network

open AgentHub.Json AgentHub.Outbox AgentHub.Hub

variable {platform : Platform} {settings : Settings} {d identity : String} {T : Transport}

/-! ### Steps of the client -/

/-- Records stay on the file. -/
theorem events_grow (d : String) (c : Client) (i : ClientInput) :
    ∀ e ∈ c.file.events, e ∈ (c.step d i).1.file.events := by
  intro e he
  cases i with
  | crash => exact he
  | reopen o io =>
    unfold Client.step
    cases hhandle : c.handle with
    | some hd => exact he
    | none =>
      have hload : e ∈ (load c.file (some d) o io).2.events := by
        -- a load keeps the records it finds
        rcases load_events c.file (some d) o io with hevents | ⟨d', hevents⟩
        · rwa [hevents]
        · rw [hevents]
          exact List.mem_append_left _ he
      simp only
      revert hload
      rcases load c.file (some d) o io with ⟨⟨err⟩ | ⟨j, b⟩, file⟩ <;> exact fun hload => hload
  | call call =>
    unfold Client.step
    cases hhandle : c.handle with
    | none => exact he
    | some hd =>
      have hstep := step_sound hd c.file call
      show e ∈ (hd.step c.file call).2.1.events
      rcases hstep.events with hevents | ⟨e', j, -, -, hevents⟩
      · rwa [hevents]
      · rw [hevents]
        exact List.mem_append_left _ he

theorem calling_eq_some {c : Client} {r : ReplayRequest} :
    calling c = some r ↔ ∃ hd fl, c.handle = some hd ∧ hd.phase = .calling fl r := by
  unfold calling
  constructor
  · intro h
    split at h
    · rename_i j fl request hhandle
      cases h
      exact ⟨_, fl, hhandle, rfl⟩
    · cases h
  · rintro ⟨⟨j, phase⟩, fl, hhandle, rfl⟩
    rw [hhandle]

/-- What the owner of a journal says of its transport. -/
theorem step_transport {hd hd' : Handle} {f f' : JournalFile} {call : Call} {outs : List Output}
    (h : Step hd f call hd' f' outs) :
    (∀ r a, .answered r a ∈ outs → call = .answer a ∧ ∃ fl, hd.phase = .calling fl r) ∧
      ∀ fl r, hd'.phase = .calling fl r → hd.phase = .calling fl r ∨ .replayed r ∈ outs := by
  cases h with
  | answered hcall hphase =>
    refine ⟨?_, by simp⟩
    intro r a hmem
    simp only [List.mem_singleton, Output.answered.injEq] at hmem
    obtain ⟨rfl, rfl⟩ := hmem
    exact ⟨hcall, _, hphase⟩
  | stutter => exact ⟨by simp, fun fl r hphase => .inl hphase⟩
  | refused => exact ⟨by simp, fun fl r hphase => .inl hphase⟩
  | attempted =>
    refine ⟨by simp, ?_⟩
    intro fl r hphase
    simp only [Phase.calling.injEq] at hphase
    exact .inr (by simp [hphase.2])
  | recalled =>
    refine ⟨by simp, ?_⟩
    intro fl r hphase
    simp only [Phase.calling.injEq] at hphase
    exact .inr (by simp [hphase.2])
  | _ => exact ⟨by simp, by simp⟩

/-- The outputs of a step of the client that speak of its transport. -/
theorem client_outputs (d : String) (c : Client) (i : ClientInput) :
    (∀ r, .replayed r ∈ (c.step d i).2 → calling (c.step d i).1 = some r) ∧
    (∀ r a, .answered r a ∈ (c.step d i).2 → i = .call (.answer a) ∧ calling c = some r) ∧
    (∀ r, calling (c.step d i).1 = some r → calling c = some r ∨ .replayed r ∈ (c.step d i).2) := by
  cases i with
  | crash => exact ⟨by simp [Client.step], by simp [Client.step], by simp [Client.step, calling]⟩
  | reopen o io =>
    -- a reopening hands nothing to the transport
    unfold Client.step
    cases hhandle : c.handle with
    | some hd => exact ⟨by simp, by simp, fun r hr => .inl hr⟩
    | none =>
      simp only
      rcases load c.file (some d) o io with ⟨⟨err⟩ | ⟨j, b⟩, file⟩
      · exact ⟨by simp, by simp, by simp [calling]⟩
      · exact ⟨by simp, by simp, by simp [calling]⟩
  | call call =>
    unfold Client.step
    cases hhandle : c.handle with
    | none => exact ⟨by simp, by simp, fun r hr => .inl hr⟩
    | some hd =>
      have hstep := step_sound hd c.file call
      obtain ⟨hanswered, hcalling⟩ := step_transport hstep
      refine ⟨?_, ?_, ?_⟩
      · intro r hr
        obtain ⟨fl, hphase⟩ := hstep.calling_of_replayed hr
        exact calling_eq_some.mpr ⟨_, fl, rfl, hphase⟩
      · intro r a hmem
        obtain ⟨rfl, fl, hphase⟩ := hanswered r a hmem
        exact ⟨rfl, calling_eq_some.mpr ⟨hd, fl, hhandle, hphase⟩⟩
      · intro r hr
        obtain ⟨hd', fl, hhd', hphase⟩ := calling_eq_some.mp hr
        cases hhd'
        rcases hcalling fl r hphase with hold | hnew
        · exact .inl (calling_eq_some.mpr ⟨hd, fl, hhandle, hold⟩)
        · exact .inr hnew

/-- The invariant of a client depends on its inputs through the identifiers they draw. -/
theorem ClientInv.congr {is is' : List ClientInput} {c : Client} {outs : List Output}
    (h : ClientInv d is c outs) (heq : drawnIds is = drawnIds is') : ClientInv d is' c outs :=
  ⟨h.file, h.handle, heq ▸ h.used, h.enqueued, h.reports⟩

/-- A request that is being replayed is on the file. -/
theorem queued_of_calling {is : List ClientInput} {c : Client} {outs : List Output}
    (h : ClientInv d is c outs) {r : ReplayRequest} (hr : calling c = some r) :
    .queued r ∈ c.file.events := by
  unfold calling at hr
  split at hr
  · rename_i j fl request hhandle
    cases hr
    obtain ⟨s, hs⟩ := h.handle _ hhandle
    have hpending : r ∈ j.pending :=
      (hs.calling rfl).1.subset List.mem_cons_self
    have hmem : r ∈ s.journal.pending := by
      rw [← hs.owned.pending_eq]
      exact hpending
    have hdurable := (hs.owned.loads.state.mem_pending.mp hmem).1
    exact List.mem_append_left _ (mem_queuedRequests.mp hdurable)
  · cases hr

/-! ### Runs -/

theorem clientInputs_append {Event : Type} (a b : List (ExchangeInput Event)) :
    clientInputs (a ++ b) = clientInputs a ++ clientInputs b := by
  simp [clientInputs]

theorem clientOutputs_append (a b : List ExchangeOutput) :
    clientOutputs (a ++ b) = clientOutputs a ++ clientOutputs b := by
  simp [clientOutputs]

theorem clientOutputs_client (outs : List Output) :
    clientOutputs (outs.map .client) = outs := by
  simp [clientOutputs, List.filterMap_map]

theorem clientOutputs_hub (outs : List HubOutput) : clientOutputs (outs.map .hub) = [] := by
  simp [clientOutputs]

theorem mem_replayedIn {outs : List Output} {r : ReplayRequest} :
    r ∈ replayedIn outs ↔ .replayed r ∈ outs := by
  unfold replayedIn
  rw [List.mem_filterMap]
  constructor
  · rintro ⟨o, ho, hr⟩
    cases o <;> simp_all
  · exact fun h => ⟨_, h, rfl⟩

theorem mem_repliesIn {outs : List HubOutput} {e : ReplayEnvelope}
    {result : Except ReplayHubError ReplayResponse} :
    (e, result) ∈ repliesIn outs ↔ .answered e result ∈ outs := by
  unfold repliesIn
  rw [List.mem_filterMap]
  constructor
  · rintro ⟨o, ho, hr⟩
    cases o <;> simp_all
  · exact fun h => ⟨_, h, rfl⟩

/-- **The invariant of a client and its hub.**  The hub's side is a run of its own, `his`. -/
structure ExchangeInv (platform : Platform) (settings : Settings) (d identity : String)
    {Event : Type} (is : List (ExchangeInput Event)) (s : Exchange)
    (outs : List ExchangeOutput) : Prop where
  client : ClientInv d (clientInputs is) s.client (clientOutputs outs)
  answers : AnswersInv s.client (clientOutputs outs)
  sent : ∀ r ∈ s.sent, .queued r ∈ s.client.file.events
  calling : ∀ r, calling s.client = some r → r ∈ s.sent
  answered : ∀ r a, .answered r a ∈ clientOutputs outs → r ∈ s.sent
  replied : ∀ r response, .answered r (.ok response) ∈ clientOutputs outs →
    (⟨identity, r⟩, .ok response) ∈ s.replies
  hub : ∃ his, s.hub = ((HubState.machine platform settings).exec {} his).1 ∧
    s.replies = repliesIn ((HubState.machine platform settings).exec {} his).2 ∧
    ∀ i envelope sse, HubInput.accept i envelope sse ∈ his →
      (∃ r ∈ s.sent, envelope = ⟨identity, r⟩) ∨
        ExchangeInput.hub (.accept i envelope sse) ∈ is

namespace ExchangeInv

variable {is : List (ExchangeInput T.Event)} {s : Exchange} {outs : List ExchangeOutput}

theorem init : ExchangeInv platform settings d identity ([] : List (ExchangeInput T.Event)) {} []
    where
  client := ClientInv.init d
  answers := AnswersInv.init
  sent := by simp
  calling := by simp [Network.calling]
  answered := by simp [clientOutputs]
  replied := by simp [clientOutputs]
  hub := ⟨[], rfl, rfl, by simp⟩

/-- A step of the client, whose answers the hub has given. -/
theorem stepClient (h : ExchangeInv platform settings d identity is s outs)
    (input : ExchangeInput T.Event) (i : ClientInput)
    (hdrawn : drawnIds (clientInputs is ++ [i]) = drawnIds (clientInputs (is ++ [input])))
    (hids : (drawnIds (clientInputs (is ++ [input]))).Nodup)
    (hanswer : ∀ response r, i = .call (.answer (.ok response)) → Network.calling s.client = some r →
      (⟨identity, r⟩, .ok response) ∈ s.replies) :
    ExchangeInv platform settings d identity (is ++ [input]) (s.stepClient d i).1
      (outs ++ (s.stepClient d i).2) := by
  obtain ⟨hreplayed, hanswered, hcalling⟩ := client_outputs d s.client i
  have hclient : ClientInv d (clientInputs (is ++ [input])) (s.client.step d i).1
      (clientOutputs outs ++ (s.client.step d i).2) :=
    ClientInv.congr (h.client.step i (hdrawn ▸ hids)) hdrawn
  have houts : clientOutputs (outs ++ (s.stepClient d i).2) =
      clientOutputs outs ++ (s.client.step d i).2 := by
    rw [clientOutputs_append]
    show _ ++ clientOutputs ((s.client.step d i).2.map .client) = _
    rw [clientOutputs_client]
  -- the hub is as it was
  obtain ⟨his, hhub, hreplies, haccepts⟩ := h.hub
  refine ⟨?_, ?_, ?_, ?_, ?_, ?_, ?_⟩
  · rw [houts]
    exact hclient
  · rw [houts]
    exact answersInv_step h.answers d i
  · -- what is sent was retained before
    intro r hr
    rcases List.mem_append.mp hr with hr | hr
    · exact events_grow d s.client i _ (h.sent r hr)
    · exact queued_of_calling hclient (hreplayed r (mem_replayedIn.mp hr))
  · intro r hr
    rcases hcalling r hr with hold | hnew
    · exact List.mem_append_left _ (h.calling r hold)
    · exact List.mem_append_right _ (mem_replayedIn.mpr hnew)
  · intro r a hmem
    rw [houts] at hmem
    -- an answer is given for the request that was being called
    rcases List.mem_append.mp hmem with hmem | hmem
    · exact List.mem_append_left _ (h.answered r a hmem)
    · exact List.mem_append_left _ (h.calling r (hanswered r a hmem).2)
  · intro r response hmem
    rw [houts] at hmem
    rcases List.mem_append.mp hmem with hmem | hmem
    · exact h.replied r response hmem
    · obtain ⟨hi, hr⟩ := hanswered r _ hmem
      exact hanswer response r hi hr
  · refine ⟨his, hhub, hreplies, ?_⟩
    intro i envelope sse hmem
    rcases haccepts i envelope sse hmem with ⟨r, hr, henvelope⟩ | hforeign
    · exact .inl ⟨r, List.mem_append_left _ hr, henvelope⟩
    · exact .inr (List.mem_append_left _ hforeign)

/-- A step of the hub. -/
theorem stepHub (h : ExchangeInv platform settings d identity is s outs)
    (input : ExchangeInput T.Event) (i : HubInput) (hdrawn : clientInputs [input] = [])
    (delivered : List ReplayRequest)
    (haccept : ∀ task envelope sse, i = .accept task envelope sse →
      (∃ r ∈ s.sent, envelope = ⟨identity, r⟩) ∨ input = .hub i) :
    ExchangeInv platform settings d identity (is ++ [input])
      ({ s with delivered }.stepHub platform settings i).1
      (outs ++ ({ s with delivered }.stepHub platform settings i).2) := by
  -- no step of the hub is one of the client
  have hinputs : clientInputs (is ++ [input]) = clientInputs is := by
    rw [clientInputs_append, hdrawn, List.append_nil]
  have houts : clientOutputs (outs ++ ({ s with delivered }.stepHub platform settings i).2) =
      clientOutputs outs := by
    rw [clientOutputs_append]
    show _ ++ clientOutputs ((s.hub.step platform settings i).2.map .hub) = _
    rw [clientOutputs_hub, List.append_nil]
  obtain ⟨his, hhub, hreplies, haccepts⟩ := h.hub
  refine ⟨?_, ?_, h.sent, h.calling, ?_, ?_, ?_⟩
  · rw [hinputs, houts]
    exact h.client
  · rw [houts]
    exact h.answers
  · rw [houts]
    exact h.answered
  · rw [houts]
    intro r response hmem
    exact List.mem_append_left _ (h.replied r response hmem)
  · refine ⟨his ++ [i], ?_, ?_, ?_⟩
    · rw [Machine.exec_snoc]
      show (s.hub.step platform settings i).1 = _
      rw [hhub]
      rfl
    · rw [Machine.exec_snoc]
      show s.replies ++ repliesIn (s.hub.step platform settings i).2 = _
      rw [hhub, hreplies]
      simp [repliesIn, Machine.extend, HubState.machine]
    · intro task envelope sse hmem
      -- a task of the hub takes a request that was sent, or one of another client
      rcases List.mem_append.mp hmem with hmem | hmem
      · rcases haccepts task envelope sse hmem with hsent | hforeign
        · exact .inl hsent
        · exact .inr (List.mem_append_left _ hforeign)
      · rw [List.mem_singleton] at hmem
        rcases haccept task envelope sse hmem.symm with hsent | hforeign
        · exact .inl hsent
        · exact .inr (List.mem_append_right _ (by rw [hforeign, hmem]; simp))

/-- An input that does nothing. -/
theorem skip (h : ExchangeInv platform settings d identity is s outs)
    (input : ExchangeInput T.Event)
    (hdrawn : drawnIds (clientInputs (is ++ [input])) = drawnIds (clientInputs is)) :
    ExchangeInv platform settings d identity (is ++ [input]) s (outs ++ []) := by
  obtain ⟨his, hhub, hreplies, haccepts⟩ := h.hub
  rw [List.append_nil]
  refine ⟨ClientInv.congr h.client hdrawn.symm, h.answers, h.sent, h.calling, h.answered,
    h.replied, his, hhub, hreplies, ?_⟩
  intro i envelope sse hmem
  exact (haccepts i envelope sse hmem).imp_right fun hforeign => List.mem_append_left _ hforeign

theorem step (h : ExchangeInv platform settings d identity is s outs)
    (input : ExchangeInput T.Event)
    (hids : (drawnIds (clientInputs (is ++ [input]))).Nodup) :
    ExchangeInv platform settings d identity (is ++ [input])
      (s.step platform settings d identity T input).1
      (outs ++ (s.step platform settings d identity T input).2) := by
  cases input with
  | client i =>
    -- a step of the client that is no answer
    have hplain : (∀ a, i ≠ .call (.answer a)) →
        ExchangeInv platform settings d identity (is ++ [.client i]) (s.stepClient d i).1
          (outs ++ (s.stepClient d i).2) := by
      intro hi
      refine h.stepClient (.client i) i ?_ hids ?_
      · rw [clientInputs_append]
        rfl
      · intro response r heq
        exact absurd heq (hi _)
    cases i with
    | crash => exact hplain (by simp)
    | reopen o io => exact hplain (by simp)
    | call call =>
      cases call with
      | answer a =>
        -- an answer is the transport's to give, so this input does nothing
        refine h.skip _ ?_
        rw [clientInputs_append, drawnIds_append]
        exact List.append_nil _
      | _ => exact hplain (by simp)
  | answer event =>
    have hdrawn : drawnIds (clientInputs (is ++ [.answer event])) =
        drawnIds (clientInputs is) := by
      rw [clientInputs_append]
      exact congrArg drawnIds (List.append_nil _)
    simp only [Exchange.step]
    split
    · exact h.skip _ hdrawn
    · -- the answer the transport gives is one the hub has sent
      rename_i request hcalling
      split
      · exact h.skip _ hdrawn
      · rename_i a hanswer
        refine h.stepClient (.answer event) (.call (.answer a)) ?_ hids ?_
        · rw [hdrawn, drawnIds_append]
          exact List.append_nil _
        · intro response r heq hr
          cases heq
          rw [hcalling, Option.some.injEq] at hr
          subst hr
          exact T.honest _ _ _ _ hanswer
  | deliver task request sse =>
    simp only [Exchange.step]
    split
    · -- a delivery takes a request that was sent
      rename_i hsent
      refine h.stepHub _ _ rfl _ ?_
      rintro task' envelope sse' ⟨⟩
      exact .inl ⟨request, hsent, rfl⟩
    · refine h.skip _ ?_
      rw [clientInputs_append]
      exact congrArg drawnIds (List.append_nil _)
  | hub i => exact h.stepHub (.hub i) i rfl s.delivered fun _ _ _ _ => .inr rfl

end ExchangeInv

theorem exchangeInv_exec (platform : Platform) (settings : Settings) (d identity : String)
    (T : Transport) (is : List (ExchangeInput T.Event))
    (hids : (drawnIds (clientInputs is)).Nodup) :
    ExchangeInv platform settings d identity is
      ((Exchange.machine platform settings d identity T).exec {} is).1
      ((Exchange.machine platform settings d identity T).exec {} is).2 := by
  revert hids
  refine Machine.exec_induction (Exchange.machine platform settings d identity T)
    (P := fun is s outs => (drawnIds (clientInputs is)).Nodup →
      ExchangeInv platform settings d identity is s outs)
    (fun _ => ExchangeInv.init) ?_ is
  intro is s outs input ih hids
  have hpre : (drawnIds (clientInputs is)).Nodup := by
    rw [clientInputs_append, drawnIds_append] at hids
    exact (List.nodup_append.mp hids).1
  exact (ih hpre).step input hids

/-! ### Exactly once -/

/-- The stream has one entry for the request, and the result is the one built with it. -/
def EnteredAs (platform : Platform) (settings : Settings) (e : ReplayEnvelope) (h : HubState)
    (result : Value) : Prop :=
  ∃ entry message, entriesOf h.db.stream e.request.requestId = [entry] ∧
    Built platform settings e entry message ∧
    appliedResult e.request (.message message) = .ok result

/-- A request of a client is the only one of its identifier the hub sees. -/
theorem ExchangeInv.message {is : List (ExchangeInput T.Event)} {s : Exchange}
    {outs : List ExchangeOutput} (h : ExchangeInv platform settings d identity is s outs)
    (hids : DistinctIds is) {r : ReplayRequest} (hr : .queued r ∈ s.client.file.events)
    (hmsg : IsMessage ⟨identity, r⟩) :
    ∃ houts, MessageInv platform settings ⟨identity, r⟩ s.hub houts ∧
      s.replies = repliesIn houts := by
  obtain ⟨his, hhub, hreplies, haccepts⟩ := h.hub
  refine ⟨_, ?_, hreplies⟩
  rw [hhub]
  refine messageInv_exec platform settings hmsg his ?_
  intro i envelope sse hmem hid
  rcases haccepts i envelope sse hmem with ⟨r', hr', rfl⟩ | hforeign
  · rcases h.client.file.events with hnil | ⟨t, ht, -⟩
    · rw [hnil] at hr
      cases hr
    · have heq : r' = r := eq_of_requestId_eq ht.state.ids_nodup
        (mem_queuedRequests.mpr (h.sent r' hr')) (mem_queuedRequests.mpr hr) hid
      rw [heq]
  · have hused := h.client.used r (mem_queuedRequests.mpr hr)
    exact absurd (hid ▸ hused) (hids.2 i envelope sse hforeign)

/-- A client that was answered with a result has the one of its entry. -/
theorem ExchangeInv.entered {is : List (ExchangeInput T.Event)} {s : Exchange}
    {outs : List ExchangeOutput} (h : ExchangeInv platform settings d identity is s outs)
    (hids : DistinctIds is) {r : ReplayRequest} (hr : .queued r ∈ s.client.file.events)
    (hmsg : IsMessage ⟨identity, r⟩) {r' : ReplayRequest} (hid : r'.requestId = r.requestId)
    {result : Value} (hanswer : .answered r' (.ok (.applied result)) ∈ clientOutputs outs) :
    EnteredAs platform settings ⟨identity, r⟩ s.hub result := by
  obtain ⟨houts, hinv, hreplies⟩ := h.message hids hr hmsg
  have hreply := h.replied r' _ hanswer
  rw [hreplies, mem_repliesIn] at hreply
  obtain ⟨response, happlied, hresult⟩ := hinv.answered _ result hreply hid
  rcases hinv.kept with ⟨hnone, -⟩ | ⟨-, -, hbuilt⟩
  · obtain ⟨slot, expiry, hslot, -⟩ := happlied
    rw [hnone] at hslot
    cases hslot
  · obtain ⟨entry, message, hentries, hbuilt, rfl⟩ := hbuilt response happlied
    exact ⟨entry, message, hentries, hbuilt, hresult⟩

/-- **Retained messages are entered exactly once.**  In every run of a client, its hub, other
clients and a transport, with crashes of either side anywhere, the stream has at most one entry for
a message or an acknowledgement the client enqueued.  Once the journal has settled it as applied
there is one, and the result the journal was answered with, or that a flush returned, is the one
built for that entry. -/
theorem exactly_once (platform : Platform) (settings : Settings) (d identity : String)
    (T : Transport) (is : List (ExchangeInput T.Event)) (hids : DistinctIds is)
    (r : ReplayRequest) (hmsg : r.operation = .send ∨ r.operation = .ack) :
    let run := (Exchange.machine platform settings d identity T).exec {} is
    .enqueued (.ok r) ∈ clientOutputs run.2 ∨ .queued r ∈ run.1.client.file.events →
    (entriesOf run.1.hub.db.stream r.requestId).length ≤ 1 ∧
    (.settled r.requestId .applied ∈ run.1.client.file.events →
      ∃ result, .answered r (.ok (.applied result)) ∈ clientOutputs run.2 ∧
        EnteredAs platform settings ⟨identity, r⟩ run.1.hub result) ∧
    ∀ before report result, .flushed before (.ok report) ∈ clientOutputs run.2 →
      (r.requestId, result) ∈ report.results →
      EnteredAs platform settings ⟨identity, r⟩ run.1.hub result := by
  intro run henqueued
  have hinv : ExchangeInv platform settings d identity is run.1 run.2 :=
    exchangeInv_exec platform settings d identity T is hids.1
  have hr : .queued r ∈ run.1.client.file.events := by
    rcases henqueued with henqueued | hqueued
    · exact List.mem_append_left _ (mem_queuedRequests.mp (hinv.client.enqueued r henqueued))
    · exact hqueued
  refine ⟨?_, ?_, ?_⟩
  · obtain ⟨houts, hmessage, -⟩ := hinv.message hids hr hmsg
    rcases hmessage.kept with ⟨-, hnil⟩ | ⟨-, hle, -⟩
    · show (entriesOf run.1.hub.db.stream r.requestId).length ≤ 1
      rw [hnil]
      simp
    · exact hle
  · intro hsettled
    obtain ⟨r', a, hid, hdisposition, hanswer⟩ :=
      hinv.answers.settled r.requestId .applied hsettled (.inl rfl)
    obtain ⟨result, rfl⟩ : ∃ result, a = .ok (.applied result) := by
      unfold Answer.disposition at hdisposition
      split at hdisposition <;> simp at hdisposition
      exact ⟨_, rfl⟩
    -- The request that was answered is the one that was enqueued.
    have heq : r' = r := by
      rcases hinv.client.file.events with hnil | ⟨t, ht, -⟩
      · rw [hnil] at hr
        cases hr
      · exact eq_of_requestId_eq ht.state.ids_nodup
          (mem_queuedRequests.mpr (hinv.sent r' (hinv.answered r' _ hanswer)))
          (mem_queuedRequests.mpr hr) hid
    subst heq
    exact ⟨result, hanswer, hinv.entered hids hr hmsg rfl hanswer⟩
  · intro before report result hflushed hmem
    obtain ⟨r', hid, hanswer⟩ := hinv.answers.reported before report hflushed _ _ hmem
    exact hinv.entered hids hr hmsg hid hanswer

/-- A transport that brings back a reply by its number, or loses the call. -/
def lossyTransport : Transport where
  Event := Option Nat
  answer replies envelope
    | none => some (.error .transport)
    | some n =>
      match replies[n]? with
      | some (e, .ok response) => if e = envelope then some (.ok response) else none
      | some (_, .error _) => some (.error .permanent)
      | none => none
  honest := by
    intro replies envelope event response h
    cases event with
    | none => simp at h
    | some n =>
      simp only at h
      split at h
      · rename_i e response' hget
        split at h
        · rename_i heq
          simp only [Option.some.injEq, Except.ok.injEq] at h
          rw [← heq, ← h]
          exact List.mem_of_getElem? hget
        · cases h
      · simp at h
      · cases h

/-- A message as the journal retains it. -/
def sampleMessage : ReplayRequest where
  requestId := Uuid.ofNat 2
  originId := Uuid.ofNat 1
  sequence := 1
  createdMs := 5
  expiresMs := 0
  operation := .send
  surface := .cli
  arguments :=
    [("body", .str "x"), ("recipient", .str "b"), ("sender", .str "a"), ("topic", .str "t")]

/-- The message reaches the hub, its reply is lost and the client restarts; it is sent again and
answered from the memo. -/
def resentMessage : List (ExchangeInput lossyTransport.Event) :=
  [.client (.reopen (Uuid.ofNat 1) .ok),
   .client (.call (.enqueue .send .cli sampleMessage.arguments 5 (Uuid.ofNat 2) .ok)),
   .client (.call (.flush 6 16)),
   .client (.call (.advance .ok)),
   .deliver 0 sampleMessage false,
   .hub (.proceed 0 7 (.script ⟨"m", "2026-01-01T00:00:00.000000Z", ""⟩ "7-0" false .done)),
   .hub (.proceed 0 7 (.persisted true)),
   .client .crash,
   .client (.reopen (Uuid.ofNat 3) .ok),
   .client (.call (.flush 8 16)),
   .client (.call (.advance .ok)),
   .deliver 1 sampleMessage false,
   .hub (.proceed 1 9 (.script ⟨"n", "2026-01-01T00:00:00.000000Z", ""⟩ "9-0" false .done)),
   .hub (.proceed 1 9 (.persisted true)),
   .answer (some 1),
   .client (.call (.conclude .ok))]

theorem exactly_once_resentMessage :
    let run := (Exchange.machine samplePlatform sampleSettings "scope" "hub"
      lossyTransport).exec {} resentMessage
    (entriesOf run.1.hub.db.stream (Uuid.ofNat 2)).length ≤ 1 ∧
      ∃ result, .answered sampleMessage (.ok (.applied result)) ∈ clientOutputs run.2 ∧
        EnteredAs samplePlatform sampleSettings ⟨"hub", sampleMessage⟩ run.1.hub result := by
  have hevents : .queued sampleMessage ∈ ((Exchange.machine samplePlatform sampleSettings "scope"
        "hub" lossyTransport).exec {} resentMessage).1.client.file.events ∧
      .settled (Uuid.ofNat 2) .applied ∈ ((Exchange.machine samplePlatform sampleSettings "scope"
        "hub" lossyTransport).exec {} resentMessage).1.client.file.events := by
    decide +kernel
  have hids : DistinctIds resentMessage := by
    refine ⟨by decide, ?_⟩
    intro i envelope sse hmem
    simp [resentMessage] at hmem
  have honce := exactly_once samplePlatform sampleSettings "scope" "hub" lossyTransport
    resentMessage hids sampleMessage (.inl rfl) (.inr hevents.1)
  exact ⟨honce.1, honce.2.1 hevents.2⟩

end AgentHub.Network
