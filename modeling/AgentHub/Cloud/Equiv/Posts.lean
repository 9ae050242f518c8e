import AgentHub.Cloud.Equiv.Serve
import AgentHub.Cloud.Equiv.Speech

/-!
# What a successful post has stored

`posts_stored`: as long as each item is inserted where the rows that have one of its keys say the
same, every post that is answered with success has its own message in the log, under the id of the
answer.  `post_taken`: the answer is a row of another caller where the two choose one
`client_msg_id`; the flag that tells them apart is not looked at.
-/

namespace AgentHub.Cloud

open AgentHub.Json AgentHub.Outbox BusLog Program

/-! ### Posts -/

/-- A request to one of the two routes for messages. -/
inductive Post where
  | single (body : Value)
  | batch (body : Value)

def Post.request : Post → Request
  | .single body => .messages body
  | .batch body => .messagesBatch body

structure PostArrival where
  identity : Identity
  post : Post
  draws : Nat → Moment
  visits : Nat → Visit

/-- The messages a post asks for: sender and origin bound, bodies fitted. -/
def PostArrival.inputs (env : Env) (a : PostArrival) : Checked (List InsertMessageInput) :=
  match a.post with
  | .single body =>
    (buildValidatedMessage body a.identity env.cloudIdentity (a.draws 0)).map fun input => [input]
  | .batch body => batchInputs env a.identity a.draws body

/-- The ids in the answer to a post, one for each item. -/
def Post.listed : Post → Value → List Value
  | .single _, answer => (answer.field? "id").toList
  | .batch _, answer =>
    match answer.field? "ids" with
    | some (.arr ids) => ids
    | _ => []

/-- Posts one after the other, each with its answer. -/
def posts (env : Env) : Machine Store PostArrival (PostArrival × Except String Value) where
  step store a :=
    let served := serveAlone env a.identity a.draws a.post.request a.visits store
    (served.1, [(a, served.2)])

/-- What a conflict is decided by is the same. -/
def Row.Says (row : Row) (input : InsertMessageInput) : Prop :=
  row.fromAgent = input.fromAgent ∧ row.toAgent = input.toAgent ∧ row.topic = input.topic ∧
    row.body = input.body

/-- Each item has its message in the log, under the id that stands for it. -/
def Delivered (log : BusLog) (inputs : List InsertMessageInput) (ids : List Value) : Prop :=
  List.Forall₂ (fun input id => ∃ row ∈ log.rows, id = .str row.id ∧ row.Says input) inputs
    ids

/-! ### The condition -/

/-- The rows of its origin that have the id or the `client_msg_id` of the message say the same. -/
def KeysAgree (log : BusLog) (input : InsertMessageInput) : Prop :=
  ∀ row ∈ log.withKey (input.originHub.getD "") input.id
      (input.clientMsgId.filter fun key => !key.isEmpty), row.Says input

/-- So it is for each message of a request when its turn comes. -/
def KeysAgreeAll (choose : List Row → Nat) (visit : Visit) :
    Nat → Store → List InsertMessageInput → Prop
  | _, _, [] => True
  | i, store, input :: inputs =>
    KeysAgree store.log input ∧
      KeysAgreeAll choose visit (i + 1)
        (store.insertMessage choose input visit.now (visit.fault i) (visit.late i)).1 inputs

/-- The condition on a post. -/
def PostAgrees (env : Env) (store : Store) (a : PostArrival) : Prop :=
  match a.inputs env with
  | .ok inputs => KeysAgreeAll env.choose (a.visits 0) 0 store inputs
  | .error _ => True

instance (row : Row) (input : InsertMessageInput) : Decidable (row.Says input) :=
  inferInstanceAs (Decidable (_ ∧ _ ∧ _ ∧ _))

instance (log : BusLog) (inputs : List InsertMessageInput) (ids : List Value) :
    Decidable (Delivered log inputs ids) :=
  inferInstanceAs (Decidable (List.Forall₂ _ inputs ids))

instance (log : BusLog) (input : InsertMessageInput) : Decidable (KeysAgree log input) :=
  inferInstanceAs (Decidable (∀ row ∈ _, Row.Says row input))

instance KeysAgreeAll.decidable (choose : List Row → Nat) (visit : Visit) :
    ∀ (i : Nat) (store : Store) (inputs : List InsertMessageInput),
      Decidable (KeysAgreeAll choose visit i store inputs)
  | _, _, [] => inferInstanceAs (Decidable True)
  | i, store, input :: inputs =>
    have := KeysAgreeAll.decidable choose visit (i + 1)
      (store.insertMessage choose input visit.now (visit.fault i) (visit.late i)).1 inputs
    inferInstanceAs (Decidable (KeysAgree store.log input ∧ _))

instance (env : Env) (store : Store) (a : PostArrival) : Decidable (PostAgrees env store a) :=
  match h : a.inputs env with
  | .ok inputs =>
    decidable_of_iff (KeysAgreeAll env.choose (a.visits 0) 0 store inputs) (by simp [PostAgrees, h])
  | .error _ => .isTrue (by simp [PostAgrees, h])

theorem PostAgrees.keys {env : Env} {store : Store} {a : PostArrival}
    (h : PostAgrees env store a) {inputs : List InsertMessageInput}
    (hinputs : a.inputs env = .ok inputs) :
    KeysAgreeAll env.choose (a.visits 0) 0 store inputs := by
  rw [PostAgrees, hinputs] at h
  exact h

/-! ### Insertion -/

section Insertion

variable {choose : List Row → Nat} {store : Store} {visit : Visit}

theorem Delivered.mono {log log' : BusLog} {inputs : List InsertMessageInput} {ids : List Value}
    (h : Delivered log inputs ids) (hsub : log.rows ⊆ log'.rows) : Delivered log' inputs ids := by
  refine List.Forall₂.imp ?_ h
  rintro input id ⟨row, hrow, hid, hcontent⟩
  exact ⟨row, hsub hrow, hid, hcontent⟩

theorem insertMessage_subset (choose : List Row → Nat) (store : Store) (input : InsertMessageInput)
    (now : Int) (fault : Fault) (late : Bool) :
    store.log.rows ⊆ (store.insertMessage choose input now fault late).1.log.rows := by
  rcases Store.insertMessage_cases choose store input now fault late with
    hsame | ⟨log, row, -, -, hrows, hafter | hafter⟩
  · rw [hsame]
    exact List.Subset.refl _
  · rw [hafter]
    show store.log.rows ⊆ log.rows
    rw [hrows]
    exact List.subset_append_left _ _
  · rw [hafter, Store.awaitAck_log]
    show store.log.rows ⊆ log.rows
    rw [hrows]
    exact List.subset_append_left _ _

/-- What is returned is in the log and says what the message says. -/
theorem insertMessage_stored {input : InsertMessageInput} {now : Int} {fault : Fault} {late : Bool}
    (hkeys : KeysAgree store.log input) {after : Store} {stored : Stored}
    (h : store.insertMessage choose input now fault late = (after, some stored)) :
    stored.message ∈ after.log.rows ∧ stored.message.Says input := by
  unfold Store.insertMessage at h
  split at h
  case h_1 => cases h
  case h_2 originHub horigin =>
    -- the name of the origin is not empty
    have hhub : input.originHub.getD "" = originHub := by
      rw [(Option.filter_eq_some_iff.1 horigin).1]
      rfl
    split at h
    case h_1 => cases h
    case h_2 row conflict hexisting =>
      obtain ⟨rfl, hstored⟩ := Prod.mk.inj h
      obtain rfl := Option.some.inj hstored
      -- the row found has the id or the client id of the input
      have hfound : row ∈ store.log.withKey originHub input.id
          (input.clientMsgId.filter fun key => !key.isEmpty) := by
        unfold BusLog.insertMessage at hexisting
        split_ifs at hexisting
        split at hexisting
        case h_1 other hlimit =>
          cases hexisting
          exact limitOne_mem hlimit
        case h_2 => split at hexisting <;> cases hexisting
      refine ⟨List.mem_of_mem_filter hfound, hkeys row ?_⟩
      rw [hhub]
      exact hfound
    case h_3 log row hinserted =>
      obtain ⟨hrow, hrows, -⟩ := insertMessage_inserted hinserted
      cases late with
      | true => cases h
      | false =>
        obtain ⟨rfl, hstored⟩ := Prod.mk.inj h
        obtain rfl := Option.some.inj hstored
        -- a new row holds what the input says
        rw [Store.awaitAck_log]
        refine ⟨?_, ?_⟩
        · show row ∈ log.rows
          rw [hrows]
          exact List.mem_append_right _ List.mem_cons_self
        · show row.Says input
          rw [hrow]
          exact ⟨rfl, rfl, rfl, rfl⟩

theorem insertAll_subset {inputs : List InsertMessageInput} {i : Nat} {result : Store × List Stored}
    (h : Store.insertAll choose visit i store inputs = some result) :
    store.log.rows ⊆ result.1.log.rows := by
  refine Store.insertAll_keeps (P := fun s => store.log.rows ⊆ s.log.rows) ?_ h
    (List.Subset.refl _)
  intro s input now fault late _ hsub
  exact List.Subset.trans hsub (insertMessage_subset choose s input now fault late)

theorem insertAll_stored {inputs : List InsertMessageInput} :
    ∀ {i : Nat} {store after : Store} {stored : List Stored},
      KeysAgreeAll choose visit i store inputs →
        Store.insertAll choose visit i store inputs = some (after, stored) →
          Delivered after.log inputs (stored.map fun s => .str s.message.id) := by
  induction inputs with
  | nil =>
    intro i store after stored _ h
    cases h
    exact List.Forall₂.nil
  | cons input inputs ih =>
    intro i store after stored hkeys h
    obtain ⟨hnow, hlater⟩ := hkeys
    rw [Store.insertAll] at h
    cases hinsert : store.insertMessage choose input visit.now (visit.fault i) (visit.late i) with
    | mk next outcome =>
      rw [hinsert] at h hlater
      cases outcome with
      | none => cases h
      | some first =>
        simp only [Option.map_eq_some_iff] at h
        obtain ⟨⟨after', rest⟩, hrest, hresult⟩ := h
        obtain ⟨rfl, rfl⟩ := Prod.mk.inj hresult
        obtain ⟨hmem, hcontent⟩ := insertMessage_stored hnow hinsert
        -- later insertions only add rows
        exact List.Forall₂.cons ⟨first.message, insertAll_subset hrest hmem, rfl, hcontent⟩
          (ih hlater hrest)

end Insertion

/-! ### Requests -/

/-- What one call and the answer made of its reply come to. -/
theorem serveAlone_call {env : Env} {identity : Identity} {draws : Nat → Moment} {request : Request}
    {c : Call} {f : c.Reply → Value} (hhandle : request.handle env identity draws =
      call c fun reply => done (f reply)) {visits : Nat → Visit} {store : Store} {answer : Value}
    (h : (serveAlone env identity draws request visits store).2 = .ok answer) :
    ∃ reply, (store.execute env.toWorker (visits 0) c).2 = some reply ∧ answer = f reply ∧
      (serveAlone env identity draws request visits store).1 =
        (store.execute env.toWorker (visits 0) c).1 := by
  rw [serveAlone, hhandle, run_call_done] at h ⊢
  have hserve : (Store.serve env.toWorker c (visits 0) store).2 =
      if (visits 0).replyLost then none else (store.execute env.toWorker (visits 0) c).2 := rfl
  rw [hserve] at h
  split_ifs at h
  · cases h
  · cases hreply : (store.execute env.toWorker (visits 0) c).2 with
    | none =>
      rw [hreply] at h
      cases h
    | some reply =>
      rw [hreply] at h
      exact ⟨reply, rfl, (Except.ok.inj h).symm, rfl⟩

/-- A post is answered with success for what it has stored. -/
theorem post_stored {env : Env} {store : Store} {a : PostArrival} (hagrees : PostAgrees env store a)
    {answer : Value}
    (h : (serveAlone env a.identity a.draws a.post.request a.visits store).2 = .ok answer) :
    ∃ inputs, a.inputs env = .ok inputs ∧
      Delivered (serveAlone env a.identity a.draws a.post.request a.visits store).1.log inputs
        (a.post.listed answer) := by
  obtain ⟨identity, post, draws, visits⟩ := a
  cases post with
  | single body =>
    cases hbuild : buildValidatedMessage body identity env.cloudIdentity (draws 0) with
    -- a refused body reaches no store
    | error e =>
      have hhandle : (Post.single body).request.handle env identity draws = fail e :=
        handle_messages_error hbuild
      rw [serveAlone, hhandle] at h
      cases h
    | ok input =>
      have hhandle : (Post.single body).request.handle env identity draws =
          call (Call.insertMessage input) fun stored => done (rowToMessage stored.message) :=
        handle_messages hbuild
      have hinputs : PostArrival.inputs env ⟨identity, .single body, draws, visits⟩ =
          .ok [input] := by
        simp only [PostArrival.inputs, hbuild, Except.map]
      -- one insertion, answered by the row it stored
      obtain ⟨stored, hstored, rfl, hafter⟩ := serveAlone_call hhandle h
      obtain ⟨hmem, hcontent⟩ := insertMessage_stored (hagrees.keys hinputs).1 (Prod.ext rfl hstored)
      refine ⟨[input], hinputs, ?_⟩
      rw [hafter]
      exact List.Forall₂.cons ⟨stored.message, hmem, rfl, hcontent⟩ List.Forall₂.nil
  | batch body =>
    cases hbuild : batchInputs env identity draws body with
    | error e =>
      have hhandle : (Post.batch body).request.handle env identity draws = fail e := by
        show Route.messagesBatch env identity draws body = _
        rw [Route.messagesBatch, hbuild]
        rfl
      rw [serveAlone, hhandle] at h
      cases h
    | ok inputs =>
      have hhandle : (Post.batch body).request.handle env identity draws =
          call (Call.insertMessageBatch inputs) fun results =>
            let ids := results.map fun stored => Value.str stored.message.id
            done (.obj [("ids", .arr ids), ("count", .int ids.length)]) := by
        show Route.messagesBatch env identity draws body = _
        rw [Route.messagesBatch, hbuild]
        rfl
      -- the batch is inserted as a whole
      obtain ⟨results, hresults, rfl, hafter⟩ := serveAlone_call hhandle h
      refine ⟨inputs, hbuild, ?_⟩
      rw [hafter]
      show Delivered (store.insertMessageBatch env.choose inputs (visits 0)).1.log inputs
        (results.map fun stored => Value.str stored.message.id)
      have hbatch : (store.insertMessageBatch env.choose inputs (visits 0)).2 = some results :=
        hresults
      rw [Store.insertMessageBatch] at hbatch ⊢
      cases hall : Store.insertAll env.choose (visits 0) 0 store inputs with
      | none =>
        rw [hall] at hbatch
        cases hbatch
      | some result =>
        obtain ⟨after, stored⟩ := result
        rw [hall] at hbatch
        obtain rfl := Option.some.inj hbatch
        exact insertAll_stored (hagrees.keys hbuild) hall

/-- A post only inserts. -/
def inserting : Discipline Call Call.Reply Unit where
  allows _ c := (∃ input, c = .insertMessage input) ∨ ∃ inputs, c = .insertMessageBatch inputs
  after _ _ _ := ()

theorem handle_inserting (env : Env) (identity : Identity) (draws : Nat → Moment) (post : Post) :
    (post.request.handle env identity draws).Obeys inserting (fun _ _ => True) () := by
  cases post with
  | single body => exact obeys_check_bind fun input _ => ⟨Or.inl ⟨input, rfl⟩, fun _ => trivial⟩
  | batch body => exact obeys_check_bind fun inputs _ => ⟨Or.inr ⟨inputs, rfl⟩, fun _ => trivial⟩

/-- No post takes a row away. -/
theorem post_subset (env : Env) (store : Store) (a : PostArrival) :
    store.log.rows ⊆
      (serveAlone env a.identity a.draws a.post.request a.visits store).1.log.rows := by
  have hrun := run_of_obeys (Store.serve env.toWorker) "internal error"
    (I := fun _ s => store.log.rows ⊆ s.log.rows) ?_
    (handle_inserting env a.identity a.draws a.post) a.visits (List.Subset.refl _)
  · obtain ⟨-, hsub, -⟩ := hrun
    exact hsub
  · intro _ c visit s hsub hc
    rw [Store.serve_fst]
    refine Store.execute_inserts_keeps (P := fun s => store.log.rows ⊆ s.log.rows) hc ?_ hsub
    intro s input now fault late _ hkept
    exact List.Subset.trans hkept (insertMessage_subset _ s input now fault late)

/-- **A successful post is really the caller's message**, in every sequence of posts each of whose
items is inserted where the rows with one of its keys say the same: the id in the answer is that of
a row with the item's sender, recipient, topic and fitted body, and the row stays. -/
theorem posts_stored (env : Env) (store : Store) (arrivals : List PostArrival)
    (h : (posts env).Meets (PostAgrees env) store arrivals) :
    ∀ x ∈ ((posts env).exec store arrivals).2, ∀ answer, x.2 = .ok answer →
      ∃ inputs, x.1.inputs env = .ok inputs ∧
        Delivered ((posts env).exec store arrivals).1.log inputs (x.1.post.listed answer) := by
  refine (posts env).exec_of_meets (I := fun s tr => ∀ x ∈ tr, ∀ answer,
    x.2 = .ok answer → ∃ inputs, x.1.inputs env = .ok inputs ∧
      Delivered s.log inputs (x.1.post.listed answer)) ?_ (by simp) h
  intro s tr a hI hagrees x hx answer hanswer
  rcases List.mem_append.1 hx with hx | hx
  · obtain ⟨inputs, hinputs, hdelivered⟩ := hI x hx answer hanswer
    exact ⟨inputs, hinputs, hdelivered.mono (post_subset env s a)⟩
  · obtain rfl := List.mem_singleton.1 hx
    exact post_stored hagrees hanswer

/-! ### Two callers, one key -/

/-- A message to everybody under a key its caller chose. -/
def noteBody (body key : String) : Value :=
  .obj
    [("recipient", .str "all"), ("topic", .str "note"), ("body", .str body),
     ("client_msg_id", .str key)]

def postNote (identity : Identity) (body key : String) (i : Nat) : PostArrival where
  identity
  post := .single (noteBody body key)
  draws j := sampleDraws (i + j)
  visits _ := sampleVisit

def ann : Identity := agentOn "ann" "desk" (by decide) desk_ne

def ben : Identity := agentOn "ben" "desk" (by decide) desk_ne

/-- Ann posts twice, as a client does that has not seen the first answer. -/
def retries : List PostArrival := [postNote ann "first" "k" 0, postNote ann "first" "k" 1]

theorem posts_stored_retry :
    ∃ x ∈ ((posts sampleEnv).exec Store.empty retries).2, ∃ answer, x.2 = .ok answer ∧
      ∃ inputs, x.1.inputs sampleEnv = .ok inputs ∧
        Delivered ((posts sampleEnv).exec Store.empty retries).1.log inputs
          (x.1.post.listed answer) := by
  have hanswered : ∃ x ∈ ((posts sampleEnv).exec Store.empty retries).2, x.2.isOk = true := by
    decide +kernel
  obtain ⟨⟨post, outcome⟩, hx, hok⟩ := hanswered
  cases outcome with
  | error => cases hok
  | ok answer =>
    refine ⟨_, hx, answer, rfl, ?_⟩
    exact posts_stored sampleEnv Store.empty retries
      ⟨by decide, by decide, trivial⟩ _ hx answer rfl

/-- Ann and Ben choose the same key. -/
def rivals : List PostArrival := [postNote ann "first" "k" 0, postNote ben "second" "k" 1]

/-- An answer of success that stands for other messages than the post's. -/
def misdelivered (env : Env) (log : BusLog) (x : PostArrival × Except String Value) : Bool :=
  match x.2, x.1.inputs env with
  | .ok answer, .ok inputs => !decide (Delivered log inputs (x.1.post.listed answer))
  | _, _ => false

/-- Ben is answered with success, and with Ann's message; his own is nowhere. -/
theorem post_taken :
    ¬ ∀ x ∈ ((posts sampleEnv).exec Store.empty rivals).2, ∀ answer, x.2 = .ok answer →
      ∃ inputs, x.1.inputs sampleEnv = .ok inputs ∧
        Delivered ((posts sampleEnv).exec Store.empty rivals).1.log inputs
          (x.1.post.listed answer) := by
  intro h
  have htaken : ∃ x ∈ ((posts sampleEnv).exec Store.empty rivals).2,
      misdelivered sampleEnv ((posts sampleEnv).exec Store.empty rivals).1.log x = true := by
    decide +kernel
  obtain ⟨x, hx, hmis⟩ := htaken
  unfold misdelivered at hmis
  split at hmis
  case h_1 answer inputs hanswer hinputs =>
    obtain ⟨inputs', hinputs', hdelivered⟩ := h x hx answer hanswer
    obtain rfl := Except.ok.inj (hinputs.symm.trans hinputs')
    simp [hdelivered] at hmis
  case h_2 => cases hmis

end AgentHub.Cloud
