import AgentHub.Cloud.Equiv.Speech

/-!
# Whose acknowledgement it is

An agent's request looks the recipient of every message up before it clears the row that awaits its
acknowledgement, each in a call of its own.  `acks_cleared_by_recipient`: as long as a look-up finds
the message that the row was written for, and no row is written between a look-up and the deletion
that follows it, an agent clears only what awaits it or everybody.  `aged_ack_cleared`: retention
removes the message and leaves the row.
-/

namespace AgentHub.Cloud

open AgentHub.Json AgentHub.Outbox BusLog Program

variable {env : Env} {identity : Identity} {draws : Nat → Moment}

/-! ### The programs of an agent -/

/-- The ids whose recipient an agent has looked up and may stand for. -/
def approved (agent : String) (ids : List String) : (c : Call) → c.Reply → List String
  | .getMessageRecipient (some id), recipient => if mayAck agent recipient then id :: ids else ids
  | _, _ => ids

/-- Nothing is cleared before its recipient is looked up. -/
def lookedUp (agent : String) : Discipline Call Call.Reply (List String) where
  allows ids c := ∀ id, c = .clearPendingAck (some id) → id ∈ ids
  after ids c reply := approved agent ids c reply

/-- The ids that the elements of a list name are among the approved ones. -/
def Names (env : Env) (ids : List String) (vs : List Value) : Prop :=
  ∀ v ∈ vs, ∀ id, idText env v = .ok (some id) → id ∈ ids

theorem authorizeAcks_lookedUp (agent : String) (vs : List Value) :
    ∀ ids : List String, (authorizeAcks env agent vs).Obeys (lookedUp agent)
      (fun ids' _ => (∀ id ∈ ids, id ∈ ids') ∧ Names env ids' vs) ids := by
  induction vs with
  | nil =>
    intro ids
    exact ⟨fun id hid => hid, by simp [Names]⟩
  | cons v vs ih =>
    intro ids
    -- the first text is looked up, and its recipient decides whether the call goes on
    refine obeys_check_bind fun text htext => ⟨nofun, fun recipient => ?_⟩
    refine obeys_check_bind fun _ hmay => ?_
    have hmay' : mayAck agent recipient = true := require_eq_ok.1 hmay
    -- what was approved stays approved
    have hmode : ∀ id ∈ ids, id ∈ approved agent ids (.getMessageRecipient text) recipient := by
      intro id hid
      unfold approved
      split
      · rw [if_pos hmay']
        exact List.mem_cons_of_mem _ hid
      · exact hid
    refine (ih _).mono ?_
    rintro ids' _ ⟨hkept, hnames⟩
    refine ⟨fun id hid => hkept id (hmode id hid), ?_⟩
    intro w hw id hid
    rcases List.mem_cons.1 hw with rfl | hw
    · -- the head is approved by its own look-up
      obtain rfl := Except.ok.inj (htext.symm.trans hid)
      apply hkept id
      show id ∈ (if mayAck agent recipient then id :: ids else ids)
      rw [if_pos hmay']
      exact List.mem_cons_self
    · exact hnames w hw id hid

theorem ackEach_lookedUp (agent ackBody : String) (vs : List Value) :
    ∀ (i : Nat) (ids : List String), Names env ids vs →
      (ackEach env identity draws agent ackBody i vs).Obeys (lookedUp agent) (fun _ _ => True)
        ids := by
  induction vs with
  | nil => exact fun _ _ _ => trivial
  | cons v vs ih =>
    intro i ids hnames
    refine obeys_check_bind fun text htext => obeys_check_bind fun input _ => ⟨nofun, fun _ => ?_⟩
    refine ⟨?_, fun _ => ih (i + 1) ids fun w hw => hnames w (List.mem_cons_of_mem _ hw)⟩
    rintro id ⟨⟩
    exact hnames v List.mem_cons_self id htext

-- no case turns on what a trimmed text is
seal Js.trim in
/-- The requests of an agent clear only what they have looked up. -/
theorem handle_lookedUp (h : identity.role = .agent) (request : Request) :
    (request.handle env identity draws).Obeys (lookedUp identity.agent) (fun _ _ => True) [] := by
  unfold Request.handle
  cases request.target with
  | none => trivial
  | some target =>
    cases target with
    | messages body => exact obeys_check_bind fun _ _ => ⟨nofun, fun _ => trivial⟩
    | messagesBatch body => exact obeys_check_bind fun _ _ => ⟨nofun, fun _ => trivial⟩
    | ack id body =>
      refine obeys_check_bind fun body' _ => obeys_check_bind fun agent hagent => ?_
      refine obeys_check_bind fun _ _ => obeys_check_bind fun ackBody _ => ?_
      obtain rfl := bindAgentProperty_agent h hagent
      rw [authorize, if_pos h]
      -- a call for one message looks it up before the insertion
      refine (authorizeAcks_lookedUp _ _ _).bind fun ids _ hids => ?_
      refine obeys_check_bind fun input _ => ⟨nofun, fun _ => ⟨?_, fun _ => trivial⟩⟩
      rintro messageId ⟨⟩
      exact hids.2 _ List.mem_cons_self _ rfl
    | ackBatch body =>
      refine obeys_check_bind fun body' _ => obeys_check_bind fun agent hagent => ?_
      refine obeys_check_bind fun vs _ => obeys_check_bind fun ackBody _ => ?_
      obtain rfl := bindAgentProperty_agent h hagent
      rw [authorize, if_pos h]
      refine (authorizeAcks_lookedUp _ _ _).bind fun ids _ hids => ?_
      -- every answered id was looked up by the authorization
      refine (ackEach_lookedUp _ _ _ 0 ids hids.2).bind fun _ _ _ => ?_
      trivial
    | knock body =>
      exact obeys_check_bind fun _ _ => obeys_check_bind fun _ _ => ⟨nofun, fun _ => trivial⟩
    | presence agentParam body => exact obeys_check_bind fun _ _ => ⟨nofun, fun _ => trivial⟩
    | syncPush body =>
      -- an agent token is refused at the sync routes
      obtain ⟨e, he⟩ := requireHubIdentity_agent h
      show (Route.syncPush env identity draws body).Obeys _ _ _
      rw [Route.syncPush, he]
      trivial
    | syncPushPresence body =>
      obtain ⟨e, he⟩ := requireHubIdentity_agent h
      show (Route.syncPushPresence env identity draws body).Obeys _ _ _
      rw [Route.syncPushPresence, he]
      trivial
    | mcp raw => trivial

/-! ### The condition -/

/-- A request in the Worker, and its next call. -/
abbrev Serving := Process Call Call.Reply String Value Arrival

abbrev Workers := Pool Call Call.Reply String Value Arrival Store

def nextCall (pool : Workers) (i : Nat) : Option (Arrival × Call) :=
  pool.processes[i]?.bind fun p =>
    match p.rest with
    | .call c _ => some (p.tag, c)
    | _ => none

/-- A look-up finds the message for which the row of `pending_acks` was written: the newest message
with its id is there and has its recipient. -/
def FindsAwaited (store : Store) : Call → Prop
  | .getMessageRecipient (some id) => ∀ ack ∈ store.pendingAcks.rows, ack.messageId = id →
      store.getMessageRecipient (some id) = some ack.recipient
  | _ => True

instance (store : Store) (c : Call) : Decidable (FindsAwaited store c) := by
  unfold FindsAwaited
  split <;> infer_instance

/-- What asks for an acknowledgement has an id that no row awaits, and none that an agent's request
has looked up and is still to clear. -/
def AsksAnew (pool : Workers) (c : Call) : Prop :=
  ∀ input ∈ c.inputs, input.requestAck = true →
    (∀ ack ∈ pool.shared.pendingAcks.rows, ack.messageId ≠ input.id) ∧
      ∀ p ∈ pool.processes, p.tag.identity.role = .agent →
        .getMessageRecipient (some input.id) ∈ p.made →
          ¬ p.rest.Makes (.clearPendingAck (some input.id))

/-- The condition on a step. -/
def AcksInOrder (pool : Workers) : PoolInput Arrival Visit String → Prop
  | .advance i _ => ∀ x ∈ nextCall pool i,
      (x.1.identity.role = .agent → FindsAwaited pool.shared x.2) ∧ AsksAnew pool x.2
  | _ => True

/-! ### The invariant -/

/-- The row awaits the agent of a token, or everybody. -/
def Awaits (identity : Identity) (ack : PendingAck) : Prop :=
  ack.recipient = identity.agent ∨ ack.recipient = "all"

/-- What a request of an agent relies on: of the ids it has approved, those it may still clear are
awaited from it. -/
def Relies (store : Store) (p : Serving) : Prop :=
  p.tag.identity.role = .agent → ∃ ids,
    p.rest.Obeys (lookedUp p.tag.identity.agent) (fun _ _ => True) ids ∧
      ∀ id ∈ ids, .getMessageRecipient (some id) ∈ p.made ∧
        (p.rest.Makes (.clearPendingAck (some id)) →
          ∀ ack ∈ store.pendingAcks.rows, ack.messageId = id → Awaits p.tag.identity ack)

theorem nextCall_eq {pool : Workers} {i : Nat} {p : Serving} {c : Call}
    {next : c.Reply → Handling Value} (hp : pool.processes[i]? = some p)
    (hrest : p.rest = .call c next) : nextCall pool i = some (p.tag, c) := by
  rw [nextCall, hp, Option.bind_some, hrest]

/-- A row that is new after a call is of no id that an agent's request relies on. -/
theorem AsksAnew.old_of_mem {pool : Workers} {c : Call} (h : AsksAnew pool c) {visit : Visit}
    {p : Serving} (hp : p ∈ pool.processes) (hrole : p.tag.identity.role = .agent) {ack : PendingAck}
    (hmade : .getMessageRecipient (some ack.messageId) ∈ p.made)
    (hclears : p.rest.Makes (.clearPendingAck (some ack.messageId)))
    (hack : ack ∈ (pool.shared.execute env.toWorker visit c).1.pendingAcks.rows) :
    ack ∈ pool.shared.pendingAcks.rows := by
  rcases (Store.execute_pendingAcks pool.shared visit c ack).1 hack with
    hold | ⟨input, hin, hrequest, rfl⟩
  · exact hold
  · exact absurd hclears ((h input hin hrequest).2 p hp hrole hmade)

theorem serve_getMessageRecipient {worker : Worker} {store : Store} {visit : Visit}
    {id recipient : Option String}
    (h : (Store.serve worker (.getMessageRecipient id) visit store).2 = some recipient) :
    recipient = store.getMessageRecipient id ∧
      (Store.serve worker (.getMessageRecipient id) visit store).1 = store := by
  unfold Store.serve Store.execute at h ⊢
  dsimp only at h ⊢
  split_ifs at h ⊢
  · exact ⟨(Option.some.inj h).symm, rfl⟩

/-- The call of a request of an agent keeps what the request relies on. -/
theorem Relies.moved {pool : Workers} {i : Nat} {p : Serving} {c : Call}
    {next : c.Reply → Handling Value} {visit : Visit}
    (hC : AcksInOrder pool (.advance i visit)) (hp : pool.processes[i]? = some p)
    (hrest : p.rest = .call c next) (h : Relies pool.shared p) :
    Relies ((workers env).serve c visit pool.shared).1
      ((workers env).moved p c next ((workers env).serve c visit pool.shared).2) := by
  intro hrole
  obtain ⟨ids, hobeys, hids⟩ := h hrole
  obtain ⟨hfinds, hanew⟩ := hC _ (nextCall_eq hp hrest)
  have hmem : p ∈ pool.processes := List.mem_of_getElem? hp
  rw [hrest] at hobeys
  cases hreply : ((workers env).serve c visit pool.shared).2 with
  | none => exact ⟨[], trivial, by simp⟩
  | some reply =>
    refine ⟨approved p.tag.identity.agent ids c reply, hobeys.2 reply, ?_⟩
    -- what was relied on before
    have hbefore : ∀ id ∈ ids, .getMessageRecipient (some id) ∈ p.made ++ [c] ∧
        ((next reply).Makes (.clearPendingAck (some id)) →
          ∀ ack ∈ ((workers env).serve c visit pool.shared).1.pendingAcks.rows,
            ack.messageId = id → Awaits p.tag.identity ack) := by
      intro id hid
      obtain ⟨hmade, hawaits⟩ := hids id hid
      refine ⟨List.mem_append_left _ hmade, ?_⟩
      rintro hclears ack hack rfl
      have hclears' : p.rest.Makes (.clearPendingAck (some ack.messageId)) := by
        rw [hrest]
        exact .later reply hclears
      exact hawaits hclears' ack (hanew.old_of_mem hmem hrole hmade hclears' hack) rfl
    intro id hid
    by_cases hold : id ∈ ids
    · exact hbefore id hold
    · -- the id this call has looked up
      unfold approved at hid
      split at hid
      case h_1 looked recipient =>
        split_ifs at hid with hmay
        · rcases List.mem_cons.1 hid with rfl | hid
          · refine ⟨List.mem_append_right _ List.mem_cons_self, ?_⟩
            intro _ ack hack hackId
            obtain ⟨hrecipient, hsame⟩ :=
              @serve_getMessageRecipient env.toWorker _ visit _ _ hreply
            have hack' : ack ∈ pool.shared.pendingAcks.rows := hsame ▸ hack
            rw [hrecipient, hfinds hrole ack hack' hackId] at hmay
            have hawaits : ack.recipient = p.tag.identity.agent ∨ ack.recipient = "all" := by
              simpa [mayAck] using hmay
            exact hawaits
          · exact absurd hid hold
        · exact absurd hid hold
      case h_2 => exact absurd hid hold

/-- What the others do keeps what a request relies on. -/
theorem Relies.others {pool : Workers} {input : PoolInput Arrival Visit String} {after : Store}
    (hC : AcksInOrder pool input) (hchange : (workers env).Changes pool input after) {p : Serving}
    (hp : p ∈ pool.processes) (h : Relies pool.shared p) : Relies after p := by
  intro hrole
  obtain ⟨ids, hobeys, hids⟩ := h hrole
  refine ⟨ids, hobeys, fun id hid => ?_⟩
  obtain ⟨hmade, hawaits⟩ := hids id hid
  refine ⟨hmade, ?_⟩
  rintro hclears ack hack rfl
  cases hchange with
  | outside cutoffIso => exact hawaits hclears ack hack rfl
  | advance visit hother hrest =>
    obtain ⟨-, hanew⟩ := hC _ (nextCall_eq hother hrest)
    exact hawaits hclears ack (hanew.old_of_mem hp hrole hmade hclears hack) rfl

/-- What an agent's call deletes awaits the agent. -/
theorem Relies.deletes {pool : Workers} {i : Nat} {p : Serving} {c : Call}
    {next : c.Reply → Handling Value} {visit : Visit}
    (hC : AcksInOrder pool (.advance i visit)) (hp : pool.processes[i]? = some p)
    (hrest : p.rest = .call c next) (h : Relies pool.shared p)
    (hrole : p.tag.identity.role = .agent) {ack : PendingAck}
    (hack : ack ∈ pool.shared.pendingAcks.rows)
    (hgone : ack ∉ ((workers env).serve c visit pool.shared).1.pendingAcks.rows) :
    Awaits p.tag.identity ack := by
  obtain ⟨ids, hobeys, hids⟩ := h hrole
  obtain ⟨-, hanew⟩ := hC _ (nextCall_eq hp hrest)
  rw [hrest] at hobeys hids
  rcases (Store.execute_pendingAcks pool.shared visit c ack).2 hack with
    hkept | rfl | ⟨input, hin, hrequest, hid⟩
  · exact absurd hkept hgone
  · have hmem : ack.messageId ∈ ids := hobeys.1 _ rfl
    exact (hids _ hmem).2 (.here next) ack hack rfl
  · exact absurd hid.symm ((hanew input hin hrequest).1 ack hack)

/-- **Only the recipient clears an acknowledgement**, in every run in which each look-up of an agent
finds the message the row was written for, and no row is written under an id that is awaited or
about to be cleared. -/
theorem acks_cleared_by_recipient (env : Env) (store : Store)
    (inputs : List (PoolInput Arrival Visit String))
    (h : (workers env).machine.Meets AcksInOrder ⟨store, []⟩ inputs) :
    ∀ made ∈ ((workers env).machine.exec ⟨store, []⟩ inputs).2,
      made.tag.identity.role = .agent →
        ∀ ack ∈ made.before.pendingAcks.rows, ack ∉ made.after.pendingAcks.rows →
          ack.recipient = made.tag.identity.agent ∨ ack.recipient = "all" := by
  have hrun := Pool.Runtime.machine_of_relies (S := workers env) (P := Relies) (C := AcksInOrder)
    (Q := fun made => made.tag.identity.role = .agent →
      ∀ ack ∈ made.before.pendingAcks.rows, ack ∉ made.after.pendingAcks.rows →
        Awaits made.tag.identity ack) ?_ ?_ ?_ h
  · exact hrun.2
  · intro s arrival hrole
    exact ⟨[], handle_lookedUp hrole arrival.request, by simp⟩
  · intro pool i p c next visit hC hp hrest hrelies
    refine ⟨hrelies.moved hC hp hrest, ?_⟩
    intro hrole ack hack hgone
    exact hrelies.deletes hC hp hrest hrole hack hgone
  · intro pool input after hC hchange p hp hrelies
    exact hrelies.others hC hchange hp

/-! ### Runs -/

def alice : Identity := agentOn "alice" "desk" (by decide) desk_ne

def bob : Identity := agentOn "bob" "desk" (by decide) desk_ne

def eve : Identity := agentOn "eve" "desk" (by decide) desk_ne

/-- Alice asks Bob for an acknowledgement. -/
def aliceAsks : Arrival where
  identity := alice
  request := .messages (.obj
    [("recipient", .str "bob"), ("topic", .str "plan"), ("body", .str "ready?"),
     ("request_ack", .bool true)])
  draws := sampleDraws

/-- An acknowledgement of the message that Alice's request stores. -/
def acknowledges (identity : Identity) : Arrival where
  identity
  request := .ack "u-0" (.obj [])
  draws i := sampleDraws (i + 1)

/-- The store after Alice's post. -/
def awaitingStore : Store :=
  ((workers sampleEnv).machine.exec ⟨Store.empty, []⟩
    [.begin aliceAsks, .advance 0 sampleVisit]).1.shared

/-- The condition for a step at which nothing asks for an acknowledgement. -/
theorem acksInOrder_of_quiet {pool : Workers} {i : Nat} {visit : Visit}
    (h : ∀ x ∈ nextCall pool i, FindsAwaited pool.shared x.2 ∧
      ∀ input ∈ x.2.inputs, input.requestAck = false) :
    AcksInOrder pool (.advance i visit) := by
  intro x hx
  obtain ⟨hfinds, hquiet⟩ := h x hx
  refine ⟨fun _ => hfinds, ?_⟩
  intro input hin hrequest
  rw [hquiet input hin] at hrequest
  cases hrequest

/-- Bob acknowledges what awaits him, and nothing comes between his calls. -/
def bobAcknowledges : List (PoolInput Arrival Visit String) :=
  [.begin (acknowledges bob), .advance 0 sampleVisit, .advance 0 sampleVisit,
    .advance 0 sampleVisit]

theorem acks_cleared_by_recipient_bob :
    ∃ made ∈ ((workers sampleEnv).machine.exec ⟨awaitingStore, []⟩ bobAcknowledges).2,
      made.tag.identity.role = .agent ∧
        ∃ ack ∈ made.before.pendingAcks.rows, ack ∉ made.after.pendingAcks.rows ∧
          (ack.recipient = made.tag.identity.agent ∨ ack.recipient = "all") := by
  have hcleared :
      ∃ made ∈ ((workers sampleEnv).machine.exec ⟨awaitingStore, []⟩ bobAcknowledges).2,
      made.tag.identity.role = .agent ∧
        ∃ ack ∈ made.before.pendingAcks.rows, ack ∉ made.after.pendingAcks.rows := by
    decide +kernel
  obtain ⟨made, hmade, hrole, ack, hack, hgone⟩ := hcleared
  refine ⟨made, hmade, hrole, ack, hack, hgone, ?_⟩
  exact acks_cleared_by_recipient sampleEnv awaitingStore bobAcknowledges
    ⟨trivial, acksInOrder_of_quiet (by decide), acksInOrder_of_quiet (by decide),
      acksInOrder_of_quiet (by decide), trivial⟩ made hmade hrole ack hack hgone

/-- The message goes by its age and the row stays; then anyone may clear it. -/
theorem aged_ack_cleared :
    ∃ made ∈ ((workers sampleEnv).machine.exec ⟨Store.empty, []⟩
        [.begin aliceAsks, .advance 0 sampleVisit, .outside "2027-01-01T00:00:00.000Z",
          .begin (acknowledges eve), .advance 1 sampleVisit, .advance 1 sampleVisit,
          .advance 1 sampleVisit]).2,
      made.tag.identity.role = .agent ∧
        ∃ ack ∈ made.before.pendingAcks.rows, ack ∉ made.after.pendingAcks.rows ∧
          ¬ (ack.recipient = made.tag.identity.agent ∨ ack.recipient = "all") := by
  decide +kernel

end AgentHub.Cloud
