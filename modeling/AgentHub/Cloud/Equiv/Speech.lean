import AgentHub.Cloud.Equiv.Push
import AgentHub.Cloud.Equiv.Store
import AgentHub.Cloud.Serve
import AgentHub.Outbox.Equiv.Request

/-!
# Whom an agent speaks for

What every route binds: `speech` is the discipline that the programs of an agent's requests obey.
`speaksForItself_iff`: an agent writes as itself only, except that its presence takes the place of
one a hub has relayed, which is when the host its token names is the name of that hub.
-/

namespace AgentHub.Cloud

open AgentHub.Json AgentHub.Outbox BusLog Program

variable {env : Env} {identity : Identity} {draws : Nat → Moment}

/-! ### Binding -/

theorem bindAgent_agent (h : identity.role = .agent) {requested fieldName agent : String}
    (hbind : bindAgent identity requested fieldName = .ok agent) : agent = identity.agent := by
  rw [bindAgent, if_pos h] at hbind
  obtain ⟨-, hagent⟩ := check_bind_eq_ok.1 hbind
  exact (Except.ok.inj hagent).symm

theorem bindAgentProperty_agent (h : identity.role = .agent) {requested : Option Value}
    {fieldName agent : String} (hbind : bindAgentProperty identity requested fieldName = .ok agent) :
    agent = identity.agent := by
  unfold bindAgentProperty at hbind
  split at hbind
  · exact bindAgent_agent h hbind
  · exact bindAgent_agent h hbind
  · cases hbind

theorem bindOriginHost_agent (h : identity.role = .agent) {requested host : Option String}
    (hbind : bindOriginHost identity requested = .ok host) : host = identity.host := by
  unfold bindOriginHost at hbind
  rw [h] at hbind
  split at hbind
  case h_1 hhost =>
    rw [hhost]
    exact (Except.ok.inj hbind).symm
  case h_2 hhost =>
    obtain ⟨-, hok⟩ := check_bind_eq_ok.1 hbind
    rw [hhost]
    exact (Except.ok.inj hok).symm
  case h_3 hnone hsome =>
    cases hhost : identity.host with
    | none => exact absurd hhost (hnone rfl)
    | some host => exact absurd hhost (hsome host rfl)

theorem hub_agent (h : identity.role = .agent) : identity.hub = none := by
  have hiff := identity.hub_iff
  rw [h] at hiff
  simpa using hiff

theorem bindOriginHub_agent (h : identity.role = .agent) {requested : Option String}
    {cloudIdentity originHub : String}
    (hbind : bindOriginHubForDirectWrite identity requested cloudIdentity = .ok originHub) :
    originHub = cloudIdentity := by
  unfold bindOriginHubForDirectWrite at hbind
  rw [hub_agent h] at hbind
  obtain ⟨-, hok⟩ := check_bind_eq_ok.1 hbind
  exact (Except.ok.inj hok).symm

/-! ### What the routes are to insert -/

/-- The message speaks for the token alone. -/
def SpokenBy (env : Env) (identity : Identity) (fields : MessageFields) (originHub : Option String) :
    Prop :=
  fields.fromAgent = identity.agent ∧ originHub = some env.cloudIdentity ∧
    (fields.originHost = none ∨ fields.originHost = identity.host)

theorem buildValidatedMessage_spoken (h : identity.role = .agent) {req : Value} {moment : Moment}
    {input : InsertMessageInput}
    (hbuild : buildValidatedMessage req identity env.cloudIdentity moment = .ok input) :
    SpokenBy env identity input.toMessageFields input.originHub := by
  simp only [buildValidatedMessage, bind_eq_ok] at hbuild
  obtain ⟨core, -, -, -, -, -, sender, hsender, host, -, hub, -, originHost, hhost, originHub, hhub,
    hinput⟩ := hbuild
  obtain rfl := Except.ok.inj hinput
  refine ⟨bindAgent_agent h hsender, congrArg some (bindOriginHub_agent h hhub), ?_⟩
  rw [bindOriginHost_agent h hhost]
  cases identity.host with
  | none => exact Or.inl rfl
  | some host =>
    by_cases hempty : host.isEmpty
    · exact Or.inl (by simp [Option.filter, hempty])
    · exact Or.inr (by simp [Option.filter, hempty])

theorem buildBatch_spoken (h : identity.role = .agent) {items : List Value} :
    ∀ {i : Nat} {inputs : List InsertMessageInput},
      buildBatch env identity draws i items = .ok inputs →
        ∀ input ∈ inputs, SpokenBy env identity input.toMessageFields input.originHub := by
  induction items with
  | nil =>
    intro i inputs hbuild input hin
    obtain rfl := Except.ok.inj hbuild
    cases hin
  | cons item items ih =>
    intro i inputs hbuild input hin
    simp only [buildBatch, bind_eq_ok] at hbuild
    obtain ⟨first, hfirst, rest, hrest, hinputs⟩ := hbuild
    obtain rfl := Except.ok.inj hinputs
    rcases List.mem_cons.1 hin with rfl | hin
    · cases hitem : buildValidatedMessage item identity env.cloudIdentity (draws i) with
      | error e =>
        rw [hitem] at hfirst
        cases hfirst
      | ok built =>
        rw [hitem] at hfirst
        obtain rfl := Except.ok.inj hfirst
        exact buildValidatedMessage_spoken h hitem
    · exact ih hrest input hin

theorem batchInputs_spoken (h : identity.role = .agent) {body : Value}
    {inputs : List InsertMessageInput} (hbuild : batchInputs env identity draws body = .ok inputs) :
    ∀ input ∈ inputs, SpokenBy env identity input.toMessageFields input.originHub := by
  simp only [batchInputs, bind_eq_ok] at hbuild
  obtain ⟨body', -, items, -, hbuild⟩ := hbuild
  exact buildBatch_spoken h hbuild

theorem ackInput_spoken (h : identity.role = .agent) {ackBody : String} {messageId : Value}
    {replyTo : Option String} {moment : Moment} {input : InsertMessageInput}
    (hbuild : ackInput env identity identity.agent ackBody messageId replyTo moment = .ok input) :
    SpokenBy env identity input.toMessageFields input.originHub := by
  simp only [ackInput, bind_eq_ok] at hbuild
  obtain ⟨originHub, hhub, hinput⟩ := hbuild
  obtain rfl := Except.ok.inj hinput
  exact ⟨rfl, congrArg some (bindOriginHub_agent h hhub), Or.inl rfl⟩

theorem knockInput_spoken (h : identity.role = .agent) {body : Value} {input : InsertMessageInput}
    (hbuild : knockInput env identity draws body = .ok input) :
    SpokenBy env identity input.toMessageFields input.originHub := by
  simp only [knockInput, bind_eq_ok] at hbuild
  obtain ⟨sender, hsender, recipient, -, knockBody, -, threadId, -, tags, -, -, -, originHub, hhub,
    hinput⟩ := hbuild
  obtain rfl := Except.ok.inj hinput
  exact ⟨bindAgentProperty_agent h hsender, congrArg some (bindOriginHub_agent h hhub), Or.inl rfl⟩

/-! ### The programs of an agent -/

/-- What the programs of an agent call, presence apart: they insert what the agent says itself. -/
def speech (env : Env) (identity : Identity) : Discipline Call Call.Reply Unit where
  allows _ c :=
    (∀ input ∈ c.inputs, SpokenBy env identity input.toMessageFields input.originHub) ∧
      (∀ originHub items, c ≠ .syncPush originHub items) ∧
        (∀ originHub events, c ≠ .syncPushPresence originHub events) ∧
          ∀ input keyOrigin originHub, c ≠ .setPresence input keyOrigin originHub
  after _ _ _ := ()

theorem speech_insertMessage {input : InsertMessageInput}
    (h : SpokenBy env identity input.toMessageFields input.originHub) :
    (speech env identity).allows () (.insertMessage input) := by
  refine ⟨?_, nofun, nofun, nofun⟩
  intro other hother
  rw [List.mem_singleton.1 hother]
  exact h

theorem requireHubIdentity_agent (h : identity.role = .agent) :
    ∃ e, requireHubIdentity identity = .error e := by
  unfold requireHubIdentity
  rw [h]
  exact ⟨_, rfl⟩

theorem authorizeAcks_speech (agent : String) (ids : List Value) :
    (authorizeAcks env agent ids).Obeys (speech env identity) (fun _ _ => True) () := by
  induction ids with
  | nil => trivial
  | cons v vs ih =>
    refine obeys_check_bind fun id _ => ⟨⟨?_, nofun, nofun, nofun⟩, ?_⟩
    · intro input hinput
      cases hinput
    · intro recipient
      exact obeys_check_bind fun _ _ => ih

theorem ackEach_speech (h : identity.role = .agent) (ackBody : String) (ids : List Value) :
    ∀ i : Nat, (ackEach env identity draws identity.agent ackBody i ids).Obeys
      (speech env identity) (fun _ _ => True) () := by
  induction ids with
  | nil => exact fun _ => trivial
  | cons v vs ih =>
    intro i
    refine obeys_check_bind fun id _ => obeys_check_bind fun input hinput => ?_
    refine ⟨speech_insertMessage (ackInput_spoken h hinput), fun stored => ?_⟩
    refine ⟨⟨?_, nofun, nofun, nofun⟩, fun _ => ih (i + 1)⟩
    intro input hinput
    cases hinput

theorem authorize_speech (agent : String) (ids : List Value) :
    (authorize env identity agent ids).Obeys (speech env identity) (fun _ _ => True) () := by
  unfold authorize
  split
  · exact authorizeAcks_speech agent ids
  · trivial

-- no case turns on what a trimmed text is
seal Js.trim in
/-- Every route but that of presence speaks for the agent alone. -/
theorem route_speech (h : identity.role = .agent) (request : Request)
    (hrequest : ∀ agentParam body, request ≠ .presence agentParam body) :
    (request.route env identity draws).Obeys (speech env identity) (fun _ _ => True) () := by
  -- a message is bound to the token's agent before it is inserted
  cases request with
  | messages body =>
    refine obeys_check_bind fun input hinput => ?_
    exact ⟨speech_insertMessage (buildValidatedMessage_spoken h hinput), fun _ => trivial⟩
  | messagesBatch body =>
    refine obeys_check_bind fun inputs hinputs => ?_
    exact ⟨⟨batchInputs_spoken h hinputs, nofun, nofun, nofun⟩, fun _ => trivial⟩
  | ack id body =>
    refine obeys_check_bind fun body' _ => obeys_check_bind fun agent hagent => ?_
    refine obeys_check_bind fun _ _ => obeys_check_bind fun ackBody _ => ?_
    obtain rfl := bindAgentProperty_agent h hagent
    -- the look-up says nothing; the acknowledgement is the agent's own
    refine (authorize_speech _ _).bind fun _ _ _ => obeys_check_bind fun input hinput => ?_
    refine ⟨speech_insertMessage (ackInput_spoken h hinput), fun _ => ?_⟩
    refine ⟨⟨?_, nofun, nofun, nofun⟩, fun _ => trivial⟩
    intro input hinput
    cases hinput
  | ackBatch body =>
    refine obeys_check_bind fun body' _ => obeys_check_bind fun agent hagent => ?_
    refine obeys_check_bind fun ids _ => obeys_check_bind fun ackBody _ => ?_
    obtain rfl := bindAgentProperty_agent h hagent
    refine (authorize_speech _ _).bind fun _ _ _ => ?_
    -- each acknowledgement of the batch likewise
    refine (ackEach_speech h ackBody ids 0).bind fun _ _ _ => ?_
    trivial
  | knock body =>
    refine obeys_check_bind fun body' _ => obeys_check_bind fun input hinput => ?_
    exact ⟨speech_insertMessage (knockInput_spoken h hinput), fun _ => trivial⟩
  | presence agentParam body => exact absurd rfl (hrequest agentParam body)
  | syncPush body =>
    -- an agent token has no hub identity
    obtain ⟨e, he⟩ := requireHubIdentity_agent h
    rw [Request.route, Route.syncPush, he]
    trivial
  | syncPushPresence body =>
    obtain ⟨e, he⟩ := requireHubIdentity_agent h
    rw [Request.route, Route.syncPushPresence, he]
    trivial
  | mcp raw => trivial

/-! ### Presence -/

/-- The presence a request of a token sets, if it passes the checks. -/
def Request.setsPresence (identity : Identity) (draws : Nat → Moment) (request : Request) :
    Option Presence :=
  match request.target with
  | some (.presence agentParam body) => (presenceInput identity draws agentParam body).toOption
  | _ => none

theorem presenceInput_agent (h : identity.role = .agent) {agentParam : String} {body : Value}
    {input : Presence} (hinput : presenceInput identity draws agentParam body = .ok input) :
    input.agent = identity.agent := by
  simp only [presenceInput, bind_eq_ok] at hinput
  obtain ⟨agent, hagent, body', -, core, -, ttl, -, hinput⟩ := hinput
  obtain rfl := Except.ok.inj hinput
  exact bindAgent_agent h hagent

theorem presenceOrigin_agent (h : identity.role = .agent) :
    presenceOrigin identity = (identity.host.getD "unknown-host", none) := by
  rw [presenceOrigin, h]

theorem setsPresence_eq_some {request : Request} {input : Presence}
    (h : request.setsPresence identity draws = some input) :
    ∃ agentParam body, request.target = some (.presence agentParam body) ∧
      presenceInput identity draws agentParam body = .ok input := by
  unfold Request.setsPresence at h
  split at h
  case h_1 agentParam body htarget =>
    refine ⟨agentParam, body, htarget, ?_⟩
    cases hinput : presenceInput identity draws agentParam body with
    | error e =>
      rw [hinput] at h
      cases h
    | ok input' =>
      rw [hinput] at h
      rw [Option.some.inj h]
  case h_2 => cases h

/-- A request that sets a presence does nothing else. -/
theorem serveAlone_presence (env : Env) (h : identity.role = .agent) {request : Request}
    {input : Presence} (hsets : request.setsPresence identity draws = some input)
    (visits : Nat → Visit) (store : Store) :
    (serveAlone env identity draws request visits store).1 =
      (store.setPresence input (identity.host.getD "unknown-host") none (visits 0).now
        ((visits 0).presenceFault 0)).1 := by
  obtain ⟨agentParam, body, htarget, hinput⟩ := setsPresence_eq_some hsets
  have hhandle : request.handle env identity draws =
      perform (Call.setPresence input (identity.host.getD "unknown-host") none) := by
    rw [Request.handle, htarget]
    show Route.presence identity draws agentParam body = _
    rw [Route.presence, hinput]
    show perform (Call.setPresence input (presenceOrigin identity).1 (presenceOrigin identity).2) = _
    rw [presenceOrigin_agent h]
  have hrun := run_call_done (Store.serve env.toWorker) "internal error"
    (Call.setPresence input (identity.host.getD "unknown-host") none) (fun reply => reply) visits store
  rw [serveAlone, hhandle]
  exact congrArg Prod.fst hrun

/-- A request that sets no presence speaks for the agent alone. -/
theorem handle_speech (env : Env) (h : identity.role = .agent) {request : Request}
    (hsets : request.setsPresence identity draws = none) :
    (request.handle env identity draws).Obeys (speech env identity) (fun _ _ => True) () := by
  unfold Request.handle
  cases htarget : request.target with
  | none => trivial
  | some target =>
    by_cases hpresence : ∃ agentParam body, target = .presence agentParam body
    · obtain ⟨agentParam, body, rfl⟩ := hpresence
      rw [Request.setsPresence, htarget] at hsets
      cases hinput : presenceInput identity draws agentParam body with
      | error e =>
        simp only [Request.route, Route.presence, hinput]
        trivial
      | ok input =>
        simp only [hinput] at hsets
        cases hsets
    · refine route_speech h target fun agentParam body heq => hpresence ⟨agentParam, body, heq⟩

/-! ### Whom the tables say it was -/

/-- What an agent's request may leave of a store: the messages that are new are the agent's own, and
so is the presence, in place of none that a hub has relayed. -/
structure SpeaksForItself (env : Env) (identity : Identity) (before after : Store) : Prop where
  messages : ∀ row ∈ after.log.rows, row ∉ before.log.rows →
    SpokenBy env identity row.toMessageFields (some row.originHub)
  presence : ∀ row ∈ after.presence.rows, row ∉ before.presence.rows →
    row.agent = identity.agent ∧
      ∀ old ∈ before.presence.rows, old.key = row.key → old.originHub = none
  history : ∀ row ∈ after.presenceHistory, row ∉ before.presenceHistory →
    row.agent = identity.agent ∧ row.originHub = none

theorem speaksForItself_of_quiet (env : Env) (h : identity.role = .agent) {request : Request}
    (hsets : request.setsPresence identity draws = none) (visits : Nat → Visit) (store : Store) :
    SpeaksForItself env identity store (serveAlone env identity draws request visits store).1 := by
  have hrun := run_of_obeys (Store.serve env.toWorker) "internal error"
    (I := fun _ s => (∀ row ∈ s.log.rows, row ∉ store.log.rows →
        SpokenBy env identity row.toMessageFields (some row.originHub)) ∧
      s.presence = store.presence ∧ s.presenceHistory = store.presenceHistory)
    ?_ (handle_speech env h hsets) visits ⟨fun row hrow hnew => absurd hrow hnew, rfl, rfl⟩
  · obtain ⟨-, ⟨hmessages, hpresence, hhistory⟩, -⟩ := hrun
    refine ⟨hmessages, ?_, ?_⟩
    · intro row hrow hnew
      rw [serveAlone, hpresence] at hrow
      exact absurd hrow hnew
    · intro row hrow hnew
      rw [serveAlone, hhistory] at hrow
      exact absurd hrow hnew
  · rintro - c visit s ⟨hmessages, hpresence, hhistory⟩ ⟨hspoken, hpush, hevents, hset⟩
    rw [Store.serve_fst]
    obtain ⟨hpresence', hhistory'⟩ := Store.execute_presence hset hevents
    refine ⟨?_, hpresence'.trans hpresence, hhistory'.trans hhistory⟩
    intro row hrow hnew
    rcases Store.execute_rows hpush hrow with hold | ⟨input, hin, hfields, hhub⟩
    · exact hmessages row hold hnew
    · rw [hfields, ← hhub]
      exact hspoken input hin

/-- **An agent speaks for itself**, unless it sets its presence where a hub has relayed one: under
the host of its token, or under `unknown-host`, and its own name. -/
theorem speaksForItself_iff (env : Env) (identity : Identity) (h : identity.role = .agent)
    (draws : Nat → Moment) (request : Request) (visits : Nat → Visit) (store : Store) :
    SpeaksForItself env identity store (serveAlone env identity draws request visits store).1 ↔
      ((request.setsPresence identity draws).isSome → (visits 0).presenceFault 0 ≠ .presence →
        ∀ old ∈ store.presence.rows,
          old.key = (identity.host.getD "unknown-host", identity.agent) → old.originHub = none) := by
  cases hsets : request.setsPresence identity draws with
  | none =>
    constructor
    · intro _ hsome
      cases hsome
    · exact fun _ => speaksForItself_of_quiet env h hsets visits store
  | some input =>
    obtain ⟨agentParam, body, -, hinput⟩ := setsPresence_eq_some hsets
    have hagent := presenceInput_agent h hinput
    rw [serveAlone_presence env h hsets visits store, Store.setPresence]
    -- the failed statement leaves both tables as they were
    by_cases hfault : (visits 0).presenceFault 0 = .presence
    · rw [if_pos hfault]
      refine ⟨fun _ _ hne => absurd hfault hne, fun _ => ⟨?_, ?_, ?_⟩⟩
      all_goals exact fun row hrow hnew => absurd hrow hnew
    · rw [if_neg hfault]
      dsimp only
      generalize hrow : ({ input with
        keyOrigin := identity.host.getD "unknown-host"
        originHub := none
        expiresAtMs := (visits 0).now + input.ttlSeconds * 1000 } : PresenceRow) = row
      have hkey : row.key = (identity.host.getD "unknown-host", identity.agent) := by
        rw [← hrow, ← hagent]
        rfl
      constructor
      · -- the row replaced is the one of the same key
        intro hspeaks _ _ old hold holdKey
        by_cases hmem : row ∈ store.presence.rows
        · obtain rfl := store.presence.eq_of_key hold hmem (holdKey.trans hkey.symm)
          rw [← hrow]
        · have hput : row ∈ (store.presence.put row).rows := Table.mem_put.2 (Or.inr rfl)
          refine (hspeaks.presence row ?_ hmem).2 old hold (holdKey.trans hkey.symm)
          split_ifs <;> exact hput
      · -- nothing relayed was there to be replaced
        intro hrelayed
        have hall := hrelayed rfl hfault
        refine ⟨?_, ?_, ?_⟩
        · intro other hother hnew
          split_ifs at hother <;> exact absurd hother hnew
        · intro other hother hnew
          have hin : other ∈ (store.presence.put row).rows := by
            split_ifs at hother <;> exact hother
          rcases Table.mem_put.1 hin with ⟨hold, -⟩ | rfl
          · exact absurd hold hnew
          · refine ⟨congrArg Prod.snd hkey, ?_⟩
            intro old hold holdKey
            exact hall old hold (holdKey.trans hkey)
        · intro other hother hnew
          split_ifs at hother
          · exact absurd hother hnew
          · rcases List.mem_append.1 hother with hother | hother
            · exact absurd hother hnew
            · rw [List.mem_singleton.1 hother]
              exact ⟨hagent, rfl⟩

/-! ### A host with the name of a hub -/

def sampleEnv : Env where
  toWorker := sampleWorker
  cloudIdentity := "cloud"
  columnText := fun _ => none

def sampleDraws (i : Nat) : Moment := { sampleMoment with uuidv7 := fun _ => "u-" ++ toString i }

def sampleVisit : Visit where
  now := 1790510400000
  fault := fun _ => .none
  late := fun _ => false
  presenceFault := fun _ => .none
  replyLost := false

theorem desk_ne : "desk" ≠ "" := by decide

/-- The token of an agent on a host. -/
def agentOn (agent host : String) (agent_ne : agent ≠ "") (host_ne : host ≠ "") : Identity where
  agent
  host := some host
  role := .agent
  hub := none
  agent_ne
  host_ne := by simpa using host_ne
  hub_iff := agent_hub_iff
  hub_ne := unnamed

/-- The token of the hub `lab`. -/
def labHub : Identity where
  agent := "relay"
  host := none
  role := .hub
  hub := some "lab"
  agent_ne := by decide
  host_ne := by decide
  hub_iff := by decide
  hub_ne := by decide

/-- The hub relays that its agent `claude` is online. -/
def relayedStore : Store :=
  (serveAlone sampleEnv labHub sampleDraws
    (.syncPushPresence (.obj [("events", .arr
      [.obj [("origin_id", .int 1), ("agent", .str "claude"), ("status", .str "online")]])]))
    (fun _ => sampleVisit) Store.empty).1

/-- An agent `claude` sets its own presence. -/
def claudeAway : Request := .presence "claude" (.obj [("status", .str "away")])

theorem speaksForItself_iff_laptop :
    SpeaksForItself sampleEnv (agentOn "claude" "laptop" (by decide) (by decide)) relayedStore
      (serveAlone sampleEnv (agentOn "claude" "laptop" (by decide) (by decide)) sampleDraws
        claudeAway (fun _ => sampleVisit) relayedStore).1 :=
  (speaksForItself_iff sampleEnv (agentOn "claude" "laptop" (by decide) (by decide)) rfl sampleDraws
    claudeAway (fun _ => sampleVisit) relayedStore).2 fun _ _ => by decide +kernel

/-- The token of an agent `claude` whose host is called like the hub takes the presence that the hub
has relayed off the table. -/
theorem relayed_presence_replaced :
    ¬ SpeaksForItself sampleEnv (agentOn "claude" "lab" (by decide) (by decide)) relayedStore
      (serveAlone sampleEnv (agentOn "claude" "lab" (by decide) (by decide)) sampleDraws
        claudeAway (fun _ => sampleVisit) relayedStore).1 := by
  intro hspeaks
  have hrelayed : ∃ row ∈ (serveAlone sampleEnv (agentOn "claude" "lab" (by decide) (by decide))
      sampleDraws claudeAway (fun _ => sampleVisit) relayedStore).1.presence.rows,
      row ∉ relayedStore.presence.rows ∧
        ∃ old ∈ relayedStore.presence.rows, old.key = row.key ∧ old.originHub ≠ none := by
    decide +kernel
  obtain ⟨row, hrow, hnew, old, hold, hkey, hhub⟩ := hrelayed
  exact hhub ((hspeaks.presence row hrow hnew).2 old hold hkey)

end AgentHub.Cloud
