import AgentHub.Cloud.Equiv.Push
import AgentHub.Cloud.Equiv.Store
import AgentHub.Cloud.Serve
import AgentHub.Outbox.Equiv.Request

/-!
# One request alone

A post and a push that nothing comes between do to the log what `postMessages` and `postSyncPush`
do: `serveAlone_messages_log` and `serveAlone_syncPush_log`.
-/

namespace AgentHub.Cloud

open AgentHub.Json AgentHub.Outbox BusLog Program

variable {env : Env} {identity : Identity} {draws : Nat → Moment}

theorem handle_messages {body : Value} {input : InsertMessageInput}
    (h : buildValidatedMessage body identity env.cloudIdentity (draws 0) = .ok input) :
    (Request.messages body).handle env identity draws =
      call (Call.insertMessage input) fun stored => done (rowToMessage stored.message) := by
  show Route.messages env identity draws body = _
  rw [Route.messages, h]
  rfl

theorem handle_messages_error {body : Value} {e : String}
    (h : buildValidatedMessage body identity env.cloudIdentity (draws 0) = .error e) :
    (Request.messages body).handle env identity draws = fail e := by
  show Route.messages env identity draws body = _
  rw [Route.messages, h]
  rfl

/-- The moment of a request that runs alone, as the routes of the log take it. -/
def momentOf (draw : Moment) (visit : Visit) : Moment :=
  { draw with storedAt := visit.now, fault := visit.fault }

/-- A post alone. -/
theorem serveAlone_messages_log (env : Env) (identity : Identity) (draws : Nat → Moment)
    (body : Value) (visits : Nat → Visit) (store : Store) :
    (serveAlone env identity draws (.messages body) visits store).1.log =
      (postMessages env.toWorker env.cloudIdentity store.log identity body
        (momentOf (draws 0) (visits 0))).1 := by
  have hbuild : buildValidatedMessage body identity env.cloudIdentity
      (momentOf (draws 0) (visits 0)) =
      buildValidatedMessage body identity env.cloudIdentity (draws 0) := rfl
  rw [postMessages, hbuild]
  cases hinput : buildValidatedMessage body identity env.cloudIdentity (draws 0) with
  | error e =>
    rw [serveAlone, handle_messages_error hinput]
    rfl
  | ok input =>
    rw [serveAlone, handle_messages hinput, run_call_done]
    -- the insertion alone touches the log
    show (store.insertMessage env.choose input (visits 0).now ((visits 0).fault 0)
      ((visits 0).late 0)).1.log = _
    rw [Store.insertMessage]
    dsimp only [momentOf]
    cases input.originHub.filter fun hub => !hub.isEmpty with
    | none => rfl
    | some originHub =>
      -- the wait for an acknowledgement does not
      dsimp only
      cases BusLog.insertMessage env.choose store.log input.toMessageFields originHub (visits 0).now
          ((visits 0).fault 0) with
      | inserted log row =>
        cases (visits 0).late 0 with
        | true => rfl
        | false => exact Store.awaitAck_log _ _
      | existing row conflict => rfl
      | failed deterministic => rfl

theorem hubItems_eq_ok {items : Option Value} {what : String} {list : List Value} :
    hubItems items what = .ok list ↔
      ∃ length, messageList items = some (list, length) ∧ length ≤ 500 ∧
        list.contains .null = false := by
  unfold hubItems
  cases messageList items with
  | none => simp [bind_eq_ok]
  | some found =>
    obtain ⟨list', length⟩ := found
    show (require (decide (length ≤ 500)) _ >>= fun _ =>
      require (!list'.contains .null) _ >>= fun _ => Except.ok list') = .ok list ↔ _
    rw [check_bind_eq_ok, check_bind_eq_ok, require_eq_ok, require_eq_ok]
    constructor
    · rintro ⟨hlen, hcontains, hlist⟩
      obtain rfl := Except.ok.inj hlist
      exact ⟨length, rfl, by simpa using hlen, by simpa using hcontains⟩
    · rintro ⟨length', hlist, hlen, hcontains⟩
      obtain ⟨rfl, rfl⟩ := Prod.mk.inj (Option.some.inj hlist)
      exact ⟨by simpa using hlen, by simpa using hcontains, rfl⟩

theorem buildItems_momentOf (worker : Worker) (draw : Moment) (visit : Visit) (messages : List Value) :
    ∀ i, buildItems worker (momentOf draw visit) i messages = buildItems worker draw i messages := by
  induction messages with
  | nil => exact fun _ => rfl
  | cons m ms ih =>
    intro i
    rw [buildItems, buildItems, ih]
    rfl

/-- A push alone. -/
theorem serveAlone_syncPush_log (env : Env) {identity : Identity} {originHub : String}
    (hhub : identity.hub = some originHub) (draws : Nat → Moment)
    (body : Value) (visits : Nat → Visit) (store : Store) :
    (serveAlone env identity draws (.syncPush body) visits store).1.log =
      (postSyncPush env.toWorker store.log originHub body (momentOf (draws 0) (visits 0))).1 := by
  have hrole : identity.role = .hub := identity.hub_iff.2 (by rw [hhub]; rfl)
  have hrequire : requireHubIdentity identity = .ok originHub := by
    rw [requireHubIdentity, hrole, hhub]
  have hroute : (Request.syncPush body).handle env identity draws =
    Route.syncPush env identity draws body := rfl
  rw [serveAlone, hroute, Route.syncPush, hrequire, postSyncPush]
  -- no body at all is refused by both
  by_cases hnull : body = .null
  · rw [if_pos hnull, hnull]
    rfl
  · have hprops : properties body = .ok body := by
      cases body <;> first | rfl | exact absurd rfl hnull
    rw [if_neg hnull, hprops]
    -- an origin that is not the token's is refused by both
    by_cases horigin : Js.truthy (body.field? "origin_hub") ∧
        body.field? "origin_hub" ≠ some (.str originHub)
    · have hcheck : ∃ e, checkOriginHub body originHub = .error e := by
        refine ⟨_, if_neg ?_⟩
        simpa using horigin
      obtain ⟨e, he⟩ := hcheck
      rw [if_pos horigin]
      simp only [check_ok, done_bind, he, check_error, fail_bind]
      rfl
    · have hcheck : checkOriginHub body originHub = .ok () := by
        refine if_pos ?_
        by_cases htruthy : Js.truthy (body.field? "origin_hub") = true
        · have hsame : body.field? "origin_hub" = some (.str originHub) := by
            by_contra hne
            exact horigin ⟨htruthy, hne⟩
          simp [hsame]
        · simp [htruthy]
      rw [if_neg horigin]
      simp only [check_ok, done_bind, hcheck]
      cases hitems : hubItems (body.field? "messages") "sync push" with
      | error e =>
        -- the two checks of the list refuse the same bodies
        have hnone : ∀ messages length, messageList (body.field? "messages") = some (messages, length) →
            length ≤ 500 → messages.contains .null = false → False := by
          intro messages length hlist hlen hcontains
          rw [hubItems_eq_ok.2 ⟨length, hlist, hlen, hcontains⟩] at hitems
          cases hitems
        show store.log = _
        split
        case h_1 => rfl
        case h_2 messages length hlist =>
          split_ifs with hlen hcontains
          · rfl
          · rfl
          · exact (hnone messages length hlist (by omega) (by simpa using hcontains)).elim
          · exact (hnone messages length hlist (by omega) (by simpa using hcontains)).elim
      | ok messages =>
        obtain ⟨length, hlist, hlen, hcontains⟩ := hubItems_eq_ok.1 hitems
        have hshort : ¬ 500 < length := by omega
        simp only [hlist, if_neg hshort, hcontains, check_ok, done_bind, perform_bind, pure_eq,
          buildItems_momentOf, Bool.false_eq_true, if_false]
        generalize List.filterMap preRejection _ = rejected
        -- what is pushed are the items that could be built
        generalize List.filterMap _ (buildItems env.toWorker (draws 0) 0 messages) = items
        have hrun := run_call_done (Store.serve env.toWorker) "internal error"
          (Call.syncPush originHub items) (fun result => pushAnswer rejected result) visits store
        rw [hrun]
        split_ifs <;> rfl

end AgentHub.Cloud
