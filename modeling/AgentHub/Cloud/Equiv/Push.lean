import AgentHub.Cloud.Equiv.BusLog
import AgentHub.Cloud.Equiv.Dates
import AgentHub.Cloud.Equiv.Js
import AgentHub.Cloud.Worker
import AgentHub.Hub.Equiv.Compare
import AgentHub.Json.Equiv.RoundTrip
import AgentHub.Outbox.Equiv.Request
import AgentHub.Sync.Equiv.Outcome
import Mathlib.Data.List.Perm.Basic

/-!
# The Worker's answer to a push

The answer is put together in two layers, the items that fail validation and what the log says to
the others, and disposes of every id of the batch exactly once (`push_disposed`).  That is what the
hub checks before it acknowledges anything.  A batch that is sent again finds its accepted messages
in the log and is told that they are duplicates.
-/

namespace AgentHub.Cloud

open AgentHub.Json AgentHub.Outbox BusLog

variable {worker : Worker}

theorem exists_mem_zip {α β : Type} {xs : List α} {ys : List β} {x : α} (hx : x ∈ xs)
    (hlen : xs.length ≤ ys.length) : ∃ y, (x, y) ∈ xs.zip ys := by
  obtain ⟨i, hi, rfl⟩ := List.getElem_of_mem hx
  have hzip : i < (xs.zip ys).length := by
    rw [List.length_zip]
    omega
  exact ⟨ys[i], by rw [← List.getElem_zip (h := hzip)]; exact List.getElem_mem hzip⟩

theorem exists_mem_zip_right {α β : Type} {xs : List α} {ys : List β} {y : β} (hy : y ∈ ys)
    (hlen : ys.length ≤ xs.length) : ∃ x, (x, y) ∈ xs.zip ys := by
  obtain ⟨i, hi, rfl⟩ := List.getElem_of_mem hy
  have hzip : i < (xs.zip ys).length := by
    rw [List.length_zip]
    omega
  exact ⟨xs[i], by rw [← List.getElem_zip (h := hzip)]; exact List.getElem_mem hzip⟩

/-- What succeeded goes along with its results. -/
theorem mem_zip_filter_isOk {α β γ ε : Type} {f : α → Except ε β} {xs : List α} {rs : List γ} {x : α}
    {r : γ} (h : (x, r) ∈ (xs.filter fun x => (f x).isOk).zip rs) :
    ∃ y, f x = .ok y ∧ (y, r) ∈ (xs.filterMap fun x => (f x).toOption).zip rs := by
  induction xs generalizing rs with
  | nil => simp at h
  | cons z xs ih =>
    cases hz : f z with
    | error e =>
      -- an item that was not built has no result
      have hfilter : ((z :: xs).filter fun x => (f x).isOk) = xs.filter fun x => (f x).isOk := by
        rw [List.filter_cons_of_neg (by simp [hz, Except.isOk, Except.toBool])]
      have hmap : ((z :: xs).filterMap fun x => (f x).toOption) =
          xs.filterMap fun x => (f x).toOption := by
        rw [List.filterMap_cons_none (by rw [hz]; rfl)]
      rw [hfilter] at h
      rw [hmap]
      exact ih h
    | ok y =>
      -- a built item takes the first of the results
      have hfilter : ((z :: xs).filter fun x => (f x).isOk) =
          z :: xs.filter fun x => (f x).isOk := by
        rw [List.filter_cons_of_pos (by simp [hz, Except.isOk, Except.toBool])]
      have hmap : ((z :: xs).filterMap fun x => (f x).toOption) =
          y :: xs.filterMap fun x => (f x).toOption := by
        rw [List.filterMap_cons_some (by rw [hz]; rfl)]
      obtain _ | ⟨r', rs⟩ := rs
      · simp at h
      rw [hfilter, List.zip_cons_cons, List.mem_cons] at h
      rw [hmap, List.zip_cons_cons]
      rcases h with heq | h
      · cases heq
        exact ⟨y, hz, List.mem_cons_self⟩
      · obtain ⟨w, hw, hmem⟩ := ih h
        exact ⟨w, hw, List.mem_cons_of_mem _ hmem⟩

/-! ### Items of a hub -/

/-- An item of a batch as the Worker sees it. -/
def hubItem (worker : Worker) (m : Sync.Message) : Value :=
  Js.parse worker.numbers (Sync.pushMessage m)

theorem pushSlots_nodup (m : Sync.Message) : ((Sync.pushSlots m).map Prod.fst).Nodup := by
  show ["id", "timestamp_utc", "protocol_version", "sender", "recipient", "topic", "body", "tags",
    "priority", "request_ack", "metadata", "thread_id", "reply_to", "client_msg_id", "origin_seq",
    "hlc"].Nodup
  decide

theorem hubItem_field? (m : Sync.Message) (k : String) :
    (hubItem worker m).field? k =
      ((Sync.pushSlots m).lookup k).join.map (Js.parse worker.numbers) := by
  rw [hubItem, Sync.pushMessage, Js.parse_obj _ (compact_keys_nodup (pushSlots_nodup m)),
    get_compact (pushSlots_nodup m)]

theorem hubItem_id (m : Sync.Message) : (hubItem worker m).field? "id" = some (.str m.id) :=
  hubItem_field? m "id"

theorem hubItem_clientMsgId (m : Sync.Message) :
    (hubItem worker m).field? "client_msg_id" = m.clientMsgId.map .str := by
  rw [hubItem_field?]
  show (m.clientMsgId.map Value.str).map (Js.parse worker.numbers) = _
  rw [Option.map_map]
  rfl

theorem hubItem_ne_null (m : Sync.Message) : hubItem worker m ≠ .null := by
  intro h
  have hid : (hubItem worker m).field? "id" = some (.str m.id) := hubItem_id m
  rw [h] at hid
  cases hid

theorem pushBody_messages (batch : List Sync.Message) :
    (pushBody worker batch).field? "messages" = some (.arr (batch.map (hubItem worker))) := by
  rw [pushBody, Js.parse_obj _ (by simp)]
  show some (Js.parse worker.numbers (.arr (batch.map Sync.pushMessage))) = _
  rw [Js.parse_arr, List.map_map]
  rfl

theorem pushBody_originHub (batch : List Sync.Message) :
    (pushBody worker batch).field? "origin_hub" = none := by
  rw [pushBody, Js.parse_obj _ (by simp)]
  rfl

/-- What the route does with the batch of a hub. -/
theorem postSyncPush_hub (log : BusLog) (hub : String) {batch : List Sync.Message}
    (hlen : batch.length ≤ 500) (moment : Moment) :
    postSyncPush worker log hub (pushBody worker batch) moment =
      let built := buildItems worker moment 0 (batch.map (hubItem worker))
      let items := built.filterMap fun x => x.2.toOption
      let stored := storeItems worker log hub items moment
      (stored.1, if stored.2.2 then
          .ok (pushAnswer (built.filterMap preRejection) (pushResult stored.1 items stored.2.1))
        else .error 500) := by
  have hbody : pushBody worker batch ≠ .null := by
    intro h
    have hm : (pushBody worker batch).field? "messages" = _ := pushBody_messages batch
    rw [h] at hm
    cases hm
  have hnull : (batch.map (hubItem worker)).contains .null = false := by
    rw [Bool.eq_false_iff, ne_eq, List.contains_iff_mem, List.mem_map]
    rintro ⟨m, -, hm⟩
    exact hubItem_ne_null m hm
  rw [postSyncPush, if_neg hbody, pushBody_originHub, pushBody_messages]
  simp only [Js.truthy, Js.given, messageList, List.length_map, not_lt.2 hlen, if_false, hnull,
    Bool.false_eq_true, false_and]
  split <;> rfl

/-- A batch that is too long leaves the log alone. -/
theorem postSyncPush_of_long (log : BusLog) (hub : String) {batch : List Sync.Message}
    (hlen : 500 < batch.length) (moment : Moment) :
    (postSyncPush worker log hub (pushBody worker batch) moment).1 = log := by
  rw [postSyncPush]
  split
  · rfl
  · rw [pushBody_originHub, pushBody_messages]
    simp only [Js.truthy, Js.given, messageList, List.length_map, hlen, if_true,
      Bool.false_eq_true, false_and, if_false]

/-! ### Building an item -/

theorem require_eq_ok {ok : Bool} {message : String} :
    require ok message = .ok () ↔ ok = true := by
  cases ok <;> simp [require]

/-- The parts of a built item. -/
theorem buildSyncPushItem_ok {m : Value} {now : Int} {uuid : String} {item : InsertMessageInput}
    (h : buildSyncPushItem worker m now uuid = .ok item) :
    ∃ core id timestampUtc version originSeq originHost originHub,
      validateMessageCore m = .ok core ∧ (!core.sender.isEmpty) = true ∧
      syncItemId (m.field? "id") uuid = .ok id ∧ Js.length id ≤ maxSyncIdLen ∧
      rejectNulBytes id "id" = .ok () ∧
      syncItemTimestamp worker (m.field? "timestamp_utc") now = .ok timestampUtc ∧
      syncItemVersion (m.field? "protocol_version") = .ok version ∧
      coerceOptionalInt (m.field? "origin_seq") "origin_seq" = .ok originSeq ∧
      validateOptionalString (m.field? "origin_host") "origin_host" maxOriginHostLen =
        .ok originHost ∧
      validateOptionalString (m.field? "origin_hub") "origin_hub" maxOriginHubLen = .ok originHub ∧
      item =
        { id, timestampUtc, protocolVersion := version, fromAgent := core.sender
          toAgent := core.recipient, topic := core.topic, body := core.body
          threadId := core.threadId, tags := core.tags, priority := core.priority
          requestAck := Js.truthy (m.field? "request_ack"), replyTo := core.replyTo
          metadata := core.metadata, clientMsgId := core.clientMsgId, originHost, originSeq
          originHub, hlc := core.hlc, sensitivity := none } := by
  simp only [buildSyncPushItem, bind_eq_ok] at h
  obtain ⟨core, hcore, _, hsender, id, hid, _, hlen, _, hnul, ts, hts, version, hversion, originSeq,
    hseq, originHost, hhost, originHub, hhub, hitem⟩ := h
  exact ⟨core, id, ts, version, originSeq, originHost, originHub, hcore, require_eq_ok.1 hsender,
    hid, by simpa using require_eq_ok.1 hlen, hnul, hts, hversion, hseq, hhost, hhub,
    (Except.ok.inj hitem).symm⟩

/-- An id that is a trimmed text is kept. -/
theorem syncItemId_of_trimmed {s : String} (hne : s ≠ "") (htrim : Js.trim s = s) (uuid : String) :
    syncItemId (some (.str s)) uuid = .ok s := by
  have htruthy : Js.truthy (some (.str s)) = true := by
    unfold Js.truthy
    split <;> simp_all
  have hempty : s.isEmpty = false := by
    rw [Bool.eq_false_iff, ne_eq, String.isEmpty_iff]
    exact hne
  simp [syncItemId, htruthy, htrim, hempty]

theorem buildSyncPushItem_id {m : Sync.Message} (hne : m.id ≠ "") (htrim : Js.trim m.id = m.id)
    {now : Int} {uuid : String} {item : InsertMessageInput}
    (h : buildSyncPushItem worker (hubItem worker m) now uuid = .ok item) : item.id = m.id := by
  obtain ⟨core, id, ts, version, seq, host, hub, -, -, hid, -, -, -, -, -, -, -, rfl⟩ :=
    buildSyncPushItem_ok h
  rw [hubItem_id, syncItemId_of_trimmed hne htrim] at hid
  exact (Except.ok.inj hid).symm

theorem syncItemTimestamp_later {ts : Option Value} {now now' : Int} {t : String}
    (h : syncItemTimestamp worker ts now = .ok t) (hnow : now ≤ now') :
    ∃ t', syncItemTimestamp worker ts now' = .ok t' := by
  unfold syncItemTimestamp at h ⊢
  split
  case isTrue => exact ⟨_, rfl⟩
  case isFalse hts =>
    rw [if_neg hts] at h
    split at h
    case h_2 => cases h
    case h_1 s =>
      unfold validateTimestampUtc at h ⊢
      split at h
      case h_1 => cases h
      case h_2 ms hms =>
        rw [check_bind_eq_ok, require_eq_ok, decide_eq_true_eq] at h
        have hle : ms ≤ now' + yearMs := by omega
        simp only [hle, decide_true, require, if_true]
        exact ⟨_, rfl⟩

/-- An item with an id of its own is built again later, with at most another timestamp. -/
theorem buildSyncPushItem_later {m : Value} {now now' : Int} {uuid uuid' : String}
    {item : InsertMessageInput} (h : buildSyncPushItem worker m now uuid = .ok item)
    (hnow : now ≤ now')
    (hid : syncItemId (m.field? "id") uuid' = syncItemId (m.field? "id") uuid) :
    ∃ t, buildSyncPushItem worker m now' uuid' = .ok { item with timestampUtc := t } := by
  obtain ⟨core, id, ts, version, seq, host, hub, hcore, hsender, hitemId, hlen, hnul, hts, hversion,
    hseq, hhost, hhub, rfl⟩ := buildSyncPushItem_ok h
  obtain ⟨t, ht⟩ := syncItemTimestamp_later hts hnow
  refine ⟨t, ?_⟩
  have hlen' : decide (Js.length id ≤ maxSyncIdLen) = true := by simpa using hlen
  simp only [buildSyncPushItem, bind_eq_ok]
  exact ⟨core, hcore, (), require_eq_ok.2 hsender, id, hid.trans hitemId, (), require_eq_ok.2 hlen',
    (), hnul, t, ht, version, hversion, seq, hseq, host, hhost, hub, hhub, rfl⟩

/-! ### Every id is disposed of once -/

/-- The ids an answer lists under a key; an entry of `rejected` has its id in a field. -/
def listed (answer : Value) (key : String) : List (Option String) :=
  (((answer.field? key).bind Value.asArray).getD []).map fun v =>
    v.asStr <|> (v.field? "id").bind Value.asStr

/-- Every id the answer lists. -/
def disposed (answer : Value) : List (Option String) :=
  listed answer "accepted" ++ listed answer "duplicates" ++ listed answer "conflicts" ++
    listed answer "rejected"

theorem rejection_id (r : Rejection) : r.value.field? "id" = r.id := by
  show Fields.get (Fields.compact _) "id" = r.id
  rw [get_compact (by simp)]
  cases r.id <;> rfl

theorem rejection_reason (r : Rejection) : r.value.field? "reason" = some (.str r.reason) := by
  show Fields.get (Fields.compact _) "reason" = _
  rw [get_compact (by simp)]
  rfl

section

variable (pre : List Rejection) (result : SyncPushResult)

theorem listed_str {answer : Value} {key : String} {ids : List String}
    (h : answer.field? key = some (.arr (ids.map .str))) : listed answer key = ids.map some := by
  rw [listed, h]
  show (ids.map Value.str).map _ = ids.map some
  rw [List.map_map]
  rfl

theorem listed_rejected :
    listed (pushAnswer pre result) "rejected" =
      (pre ++ result.rejected).map fun r => r.id.bind Value.asStr := by
  show ((pre ++ result.rejected).map Rejection.value).map _ = _
  rw [List.map_map]
  apply List.map_congr_left
  intro r _
  show (r.value.asStr <|> (r.value.field? "id").bind Value.asStr) = _
  rw [rejection_id]
  rfl

end

/-- The results of the log dispose of every item. -/
theorem pushResult_perm (log : BusLog) (items : List InsertMessageInput) (results : List ItemResult)
    (hlen : results.length = items.length) :
    ((pushResult log items results).accepted.map some ++
        (pushResult log items results).duplicates.map some ++
        (pushResult log items results).conflicts.map some ++
        (pushResult log items results).rejected.map fun r => r.id.bind Value.asStr).Perm
      (items.map fun item => some item.id) := by
  induction items generalizing results with
  | nil => exact List.Perm.refl _
  | cons item items ih =>
    obtain _ | ⟨result, results⟩ := results
    · cases hlen
    have hrest := ih results (by simpa using hlen)
    -- the head goes to one of the four lists
    simp only [pushResult, idsOf, List.zip_cons_cons, List.filter_cons, List.filterMap_cons,
      List.map_cons] at hrest ⊢
    cases result with
    | accepted row => exact hrest.cons _
    | duplicate row =>
      simp only [ItemResult.isAccepted, ItemResult.isDuplicate, ItemResult.isConflict, rejectionOf,
        if_true, Bool.false_eq_true, if_false, List.map_cons]
      refine List.Perm.trans ?_ (hrest.cons _)
      simp only [List.append_assoc, List.cons_append]
      exact List.perm_middle
    | conflict row =>
      simp only [ItemResult.isAccepted, ItemResult.isDuplicate, ItemResult.isConflict, rejectionOf,
        if_true, Bool.false_eq_true, if_false, List.map_cons]
      refine List.Perm.trans ?_ (hrest.cons _)
      simp only [List.append_assoc, List.cons_append]
      rw [← List.append_assoc, ← List.append_assoc]
      exact List.perm_middle
    | rejected reason =>
      simp only [ItemResult.isAccepted, ItemResult.isDuplicate, ItemResult.isConflict, rejectionOf,
        Bool.false_eq_true, if_false, List.map_cons]
      refine List.Perm.trans ?_ (hrest.cons _)
      exact List.perm_middle

/-- The two layers together dispose of every message of the batch. -/
theorem built_perm (worker : Worker) {batch : List Sync.Message}
    (hids : ∀ m ∈ batch, m.id ≠ "" ∧ Js.trim m.id = m.id) (moment : Moment) (i : Nat) :
    (((buildItems worker moment i (batch.map (hubItem worker))).filterMap preRejection).map
          (fun r => r.id.bind Value.asStr) ++
        ((buildItems worker moment i (batch.map (hubItem worker))).filterMap
          fun x => x.2.toOption).map fun item => some item.id).Perm
      (batch.map fun m => some m.id) := by
  induction batch generalizing i with
  | nil => exact List.Perm.refl _
  | cons m batch ih =>
    have hrest := ih (fun x hx => hids x (List.mem_cons_of_mem _ hx)) (i + 1)
    obtain ⟨hne, htrim⟩ := hids m List.mem_cons_self
    simp only [List.map_cons, buildItems, List.filterMap_cons]
    cases hb : buildSyncPushItem worker (hubItem worker m) moment.now (moment.uuidv7 i) with
    | error reason =>
      simp only [preRejection, Except.toOption, hubItem_id, List.map_cons, List.cons_append]
      exact hrest.cons _
    | ok item =>
      simp only [preRejection, Except.toOption, List.map_cons]
      rw [← buildSyncPushItem_id hne htrim hb]
      exact List.perm_middle.trans (hrest.cons _)

/-- A batch of a hub that was answered, taken apart. -/
theorem postSyncPush_ok {log log' : BusLog} {hub : String} {batch : List Sync.Message}
    (hlen : batch.length ≤ 500) {moment : Moment} {answer : Value}
    (h : postSyncPush worker log hub (pushBody worker batch) moment = (log', .ok answer)) :
    ∃ built items results,
      built = buildItems worker moment 0 (batch.map (hubItem worker)) ∧
      items = (built.filterMap fun x => x.2.toOption) ∧
      storeItems worker log hub items moment = (log', results, true) ∧
      answer = pushAnswer (built.filterMap preRejection) (pushResult log' items results) := by
  rw [postSyncPush_hub log hub hlen] at h
  obtain ⟨rfl, hanswer⟩ := Prod.mk.inj h
  split at hanswer
  case isTrue hdone =>
    exact ⟨_, _, _, rfl, rfl, Prod.ext rfl (Prod.ext rfl hdone), (Response.ok.inj hanswer).symm⟩
  case isFalse => cases hanswer

theorem storeItems_fst (items : List InsertMessageInput) (moment : Moment) :
    (items.zipIdx.map fun x => (x.1, moment.fault x.2)).map Prod.fst = items := by
  rw [List.map_map]
  show items.zipIdx.map Prod.fst = items
  exact List.zipIdx_map_fst 0 items

theorem storeItems_pushed {log log' : BusLog} {hub : String} {items : List InsertMessageInput}
    {moment : Moment} {results : List ItemResult} {completed : Bool}
    (h : storeItems worker log hub items moment = (log', results, completed)) :
    Pushed hub log log' items results := by
  have hspec : Pushed hub log (storeItems worker log hub items moment).1 _
      (storeItems worker log hub items moment).2.1 :=
    syncItems_spec log (items.zipIdx.map fun x => (x.1, moment.fault x.2))
  rw [storeItems_fst, h] at hspec
  exact hspec

theorem storeItems_length {log log' : BusLog} {hub : String} {items : List InsertMessageInput}
    {moment : Moment} {results : List ItemResult}
    (h : storeItems worker log hub items moment = (log', results, true)) :
    results.length = items.length := by
  rw [storeItems] at h
  have hlen := syncItems_length log (items.zipIdx.map fun x => (x.1, moment.fault x.2))
    (by rw [h])
  rw [h] at hlen
  simpa using hlen

theorem storeItems_length_le (log : BusLog) (hub : String) (items : List InsertMessageInput)
    (moment : Moment) : (storeItems worker log hub items moment).2.1.length ≤ items.length := by
  rw [storeItems]
  refine (syncItems_length_le _ _).trans ?_
  simp

/-- The ids of an answered batch are disposed of once each. -/
theorem disposed_perm {log log' : BusLog} {hub : String} {batch : List Sync.Message}
    (hlen : batch.length ≤ 500) (hids : ∀ m ∈ batch, m.id ≠ "" ∧ Js.trim m.id = m.id)
    {moment : Moment} {answer : Value}
    (h : postSyncPush worker log hub (pushBody worker batch) moment = (log', .ok answer)) :
    (disposed answer).Perm (batch.map fun m => some m.id) := by
  obtain ⟨built, items, results, rfl, rfl, hstored, rfl⟩ := postSyncPush_ok hlen h
  have hresults := pushResult_perm log' _ results (storeItems_length hstored)
  refine List.Perm.trans ?_ (built_perm worker hids moment 0)
  rw [disposed, listed_str rfl, listed_str rfl, listed_str rfl, listed_rejected, List.map_append]
  exact (List.perm_append_comm_assoc _ _ _).trans (hresults.append_left _)

/-! ### The hub's check of the answer -/

/-- A rejection of an item that a hub sent. -/
def BusLog.Rejection.OfHub (r : Rejection) : Prop :=
  ∃ (id : String) (clientMsgId : Option String), r.id = some (.str id) ∧
    r.clientMsgId = clientMsgId.map .str

variable {d : Doubles}

theorem preRejection_ofHub {batch : List Sync.Message} {moment : Moment} {i : Nat} {r : Rejection}
    (h : r ∈ (buildItems worker moment i (batch.map (hubItem worker))).filterMap preRejection) :
    r.OfHub := by
  induction batch generalizing i with
  | nil => cases h
  | cons m batch ih =>
    simp only [List.map_cons, buildItems, List.filterMap_cons] at h
    cases hb : buildSyncPushItem worker (hubItem worker m) moment.now (moment.uuidv7 i) with
    | ok item =>
      simp only [hb, preRejection] at h
      exact ih h
    | error reason =>
      simp only [hb, preRejection, List.mem_cons] at h
      rcases h with rfl | h
      · exact ⟨m.id, m.clientMsgId, hubItem_id m, hubItem_clientMsgId m⟩
      · exact ih h

theorem pushResult_ofHub {log : BusLog} {items : List InsertMessageInput}
    {results : List ItemResult} {r : Rejection} (h : r ∈ (pushResult log items results).rejected) :
    r.OfHub := by
  obtain ⟨⟨item, result⟩, -, hr⟩ := List.mem_filterMap.1 h
  cases result with
  | rejected reason =>
    obtain rfl := Option.some.inj hr
    exact ⟨item.id, item.clientMsgId, rfl, rfl⟩
  | accepted | duplicate | conflict => cases hr

/-- The fields of a rejection are texts. -/
theorem BusLog.Rejection.OfHub.fields {r : Rejection} (h : r.OfHub) :
    ∀ kv ∈ Fields.compact [("id", r.id), ("client_msg_id", r.clientMsgId),
      ("reason", some (.str r.reason))], ∃ s, kv.2 = .str s := by
  obtain ⟨id, clientMsgId, hid, hclient⟩ := h
  rw [hid, hclient]
  cases clientMsgId with
  | none =>
    intro kv hkv
    simp only [Fields.compact, List.filterMap_cons, Option.map_some, Option.map_none,
      List.filterMap_nil, List.mem_cons, List.not_mem_nil, or_false] at hkv
    rcases hkv with rfl | rfl <;> exact ⟨_, rfl⟩
  | some key =>
    intro kv hkv
    simp only [Fields.compact, List.filterMap_cons, Option.map_some, List.filterMap_nil,
      List.mem_cons, List.not_mem_nil, or_false] at hkv
    rcases hkv with rfl | rfl | rfl <;> exact ⟨_, rfl⟩

theorem BusLog.Rejection.OfHub.depth {r : Rejection} (h : r.OfHub) : r.value.depth ≤ 1 := by
  show Value.depthFields _ + 1 ≤ 1
  refine Nat.succ_le_succ ((depthFields_le_iff _ 0).2 ?_)
  intro kv hkv
  obtain ⟨s, hs⟩ := h.fields kv hkv
  rw [hs]
  exact Nat.le_refl _

/-- A rejection is read with its id and its reason. -/
theorem BusLog.Rejection.OfHub.document {r : Rejection} (h : r.OfHub) :
    ∃ w, Json.document d r.value = some w ∧ w.field? "id" = r.id ∧
      w.field? "reason" = some (.str r.reason) := by
  have hsome : (Json.document d r.value).isSome := by
    apply document_obj_isSome
    intro kv hkv
    obtain ⟨s, hs⟩ := h.fields kv hkv
    rw [hs]
    rfl
  obtain ⟨w, hw⟩ := Option.isSome_iff_exists.1 hsome
  have hfield := document_obj (compact_keys_nodup (by simp)) hw
  refine ⟨w, hw, ?_, ?_⟩
  · obtain ⟨id, clientMsgId, hid, -⟩ := h
    rw [hfield "id"]
    show (r.value.field? "id").bind _ = _
    rw [rejection_id, hid]
    rfl
  · rw [hfield "reason"]
    show (r.value.field? "reason").bind _ = _
    rw [rejection_reason]
    rfl

theorem document_rejections {rejected : List Rejection} (h : ∀ r ∈ rejected, r.OfHub) :
    ∃ (ws : List Value) (ids : List String),
      Json.document d (.arr (rejected.map Rejection.value)) = some (.arr ws) ∧
      ws.map (fun v => (v.field? "id").bind Value.asStr) = ids.map some ∧
      (rejected.map fun r => r.id.bind Value.asStr) = ids.map some ∧
      ∀ v ∈ ws, ∃ reason, v.field? "reason" = some (.str reason) := by
  induction rejected with
  | nil => exact ⟨[], [], rfl, rfl, rfl, by simp⟩
  | cons r rejected ih =>
    obtain ⟨ws, ids, hdoc, hws, hids, hreason⟩ := ih fun r hr => h r (List.mem_cons_of_mem _ hr)
    have hr := h r List.mem_cons_self
    obtain ⟨w, hw, hid, hwhy⟩ := hr.document (d := d)
    obtain ⟨id, -, hrid, -⟩ := hr
    refine ⟨w :: ws, id :: ids, ?_, ?_, ?_, ?_⟩
    · simp only [Json.document, Option.map_eq_some_iff, Value.arr.injEq, exists_eq_right] at hdoc
      simp only [Json.document, List.map_cons, documentItems, hw, hdoc]
      rfl
    · rw [List.map_cons, List.map_cons, hid, hws, hrid]
      rfl
    · rw [List.map_cons, List.map_cons, hids, hrid]
      rfl
    · intro v hv
      rcases List.mem_cons.1 hv with rfl | hv
      · exact ⟨_, hwhy⟩
      · exact hreason v hv

/-- The answer of a push can be read, and its arrays are those of the answer. -/
theorem readAnswer_pushAnswer {pre : List Rejection} {result : SyncPushResult}
    (hpre : ∀ r ∈ pre, r.OfHub) (hresult : ∀ r ∈ result.rejected, r.OfHub) :
    ∃ body, readAnswer d (.ok (pushAnswer pre result)) = some body ∧
      ∀ k, body.field? k = ((pushAnswer pre result).field? k).bind (Json.document d) := by
  have hrejected : ∀ r ∈ pre ++ result.rejected, r.OfHub := by
    intro r hr
    rcases List.mem_append.1 hr with hr | hr
    · exact hpre r hr
    · exact hresult r hr
  -- the answer is shallow enough to be read back
  have hdepth : (pushAnswer pre result).depth ≤ 127 := by
    have hitems : Value.depthItems ((pre ++ result.rejected).map Rejection.value) ≤ 1 := by
      rw [depthItems_le_iff]
      intro v hv
      obtain ⟨r, hr, rfl⟩ := List.mem_map.1 hv
      exact (hrejected r hr).depth
    have hstr : ∀ ids : List String, Value.depthItems (ids.map .str) ≤ 0 := by
      intro ids
      rw [depthItems_le_iff]
      intro v hv
      obtain ⟨s, -, rfl⟩ := List.mem_map.1 hv
      exact Nat.le_refl _
    have h₁ := hstr result.accepted
    have h₂ := hstr result.duplicates
    have h₃ := hstr result.conflicts
    simp only [pushAnswer, Value.depth, Value.depthFields]
    omega
  obtain ⟨ws, ids, hws, -⟩ := document_rejections (d := d) hrejected
  -- each of its fields can be printed
  have hsome : (Json.document d (pushAnswer pre result)).isSome := by
    apply document_obj_isSome
    intro kv hkv
    simp only [List.mem_cons, List.not_mem_nil, or_false] at hkv
    rcases hkv with rfl | rfl | rfl | rfl | rfl
    · rw [document_arr_str]; rfl
    · rw [document_arr_str]; rfl
    · rw [document_arr_str]; rfl
    · rw [hws]; rfl
    · rfl
  obtain ⟨body, hbody⟩ := Option.isSome_iff_exists.1 hsome
  refine ⟨body, ?_, fun k => document_obj ?_ hbody k⟩
  · rw [readAnswer, if_pos hdepth, hbody]
  · simp

/-- An answered batch without conflicts passes the hub's check. -/
theorem messageOutcome_of_answer {log log' : BusLog} {hub : String} {batch : List Sync.Message}
    (hlen : batch.length ≤ 500) (hnodup : (batch.map fun m => m.id).Nodup)
    (hids : ∀ m ∈ batch, m.id ≠ "" ∧ Js.trim m.id = m.id) {moment : Moment} {answer : Value}
    (h : postSyncPush worker log hub (pushBody worker batch) moment = (log', .ok answer)) :
    ∃ body, readAnswer d (.ok answer) = some body ∧
      (listed answer "conflicts" = [] → (Sync.messageOutcome body batch).isSome) := by
  -- the disposition is a permutation of the sent ids
  have hperm := disposed_perm hlen hids h
  obtain ⟨built, items, results, rfl, rfl, hstored, rfl⟩ := postSyncPush_ok hlen h
  have hpre : ∀ r ∈ (buildItems worker moment 0 (batch.map (hubItem worker))).filterMap preRejection,
      r.OfHub := fun r hr => preRejection_ofHub hr
  have hresult : ∀ r ∈ (pushResult log' ((buildItems worker moment 0
      (batch.map (hubItem worker))).filterMap fun x => x.2.toOption) results).rejected, r.OfHub :=
    fun r hr => pushResult_ofHub hr
  obtain ⟨body, hbody, hfield⟩ := readAnswer_pushAnswer (d := d) hpre hresult
  refine ⟨body, hbody, fun hconflicts => ?_⟩
  generalize (buildItems worker moment 0 (batch.map (hubItem worker))).filterMap preRejection = pre
    at *
  generalize pushResult log' _ results = result at *
  have hrejected : ∀ r ∈ pre ++ result.rejected, r.OfHub := by
    intro r hr
    rcases List.mem_append.1 hr with hr | hr
    · exact hpre r hr
    · exact hresult r hr
  obtain ⟨ws, ids, hws, hwsIds, hrejectedIds, hreason⟩ := document_rejections (d := d) hrejected
  -- the outcome demands that nothing conflicts
  have hnone : result.conflicts = [] := by
    rw [listed_str rfl] at hconflicts
    exact List.map_eq_nil_iff.1 hconflicts
  refine Sync.messageOutcome_isSome ((hfield "accepted").trans (document_arr_str _))
    ((hfield "duplicates").trans (document_arr_str _)) ?_ ((hfield "rejected").trans hws) hwsIds
    hreason ?_ hnodup
  · rw [hfield "conflicts"]
    show Json.document d (.arr (result.conflicts.map .str)) = _
    rw [hnone]
    rfl
  · -- the three lists left are the batch
    apply (List.map_perm_map_iff (Option.some_injective String)).1
    rw [disposed, listed_str rfl, listed_str rfl, listed_str rfl, listed_rejected, hrejectedIds,
      hnone, List.map_nil, List.append_nil] at hperm
    rw [List.map_append, List.map_append, List.map_map]
    exact hperm

/-! ### The same batch again -/

theorem mem_items {batch : List Sync.Message} {moment : Moment} {i : Nat}
    {item : InsertMessageInput}
    (h : item ∈ (buildItems worker moment i (batch.map (hubItem worker))).filterMap
      fun x => x.2.toOption) :
    ∃ m ∈ batch, ∃ uuid, buildSyncPushItem worker (hubItem worker m) moment.now uuid = .ok item := by
  induction batch generalizing i with
  | nil => cases h
  | cons m batch ih =>
    simp only [List.map_cons, buildItems, List.filterMap_cons] at h
    cases hb : buildSyncPushItem worker (hubItem worker m) moment.now (moment.uuidv7 i) with
    | error reason =>
      simp only [hb, Except.toOption] at h
      obtain ⟨m', hm', hitem⟩ := ih h
      exact ⟨m', List.mem_cons_of_mem _ hm', hitem⟩
    | ok first =>
      simp only [hb, Except.toOption, List.mem_cons] at h
      rcases h with rfl | h
      · exact ⟨m, List.mem_cons_self, _, hb⟩
      · obtain ⟨m', hm', hitem⟩ := ih h
        exact ⟨m', List.mem_cons_of_mem _ hm', hitem⟩

/-- What was built once is among the items again. -/
theorem mem_items_later {batch : List Sync.Message}
    (hids : ∀ m ∈ batch, m.id ≠ "" ∧ Js.trim m.id = m.id) {moment : Moment} {i : Nat}
    {m : Sync.Message} (hm : m ∈ batch) {now : Int} {uuid : String} {item : InsertMessageInput}
    (h : buildSyncPushItem worker (hubItem worker m) now uuid = .ok item)
    (hnow : now ≤ moment.now) :
    ∃ t, { item with timestampUtc := t } ∈
      (buildItems worker moment i (batch.map (hubItem worker))).filterMap fun x => x.2.toOption := by
  induction batch generalizing i with
  | nil => cases hm
  | cons first batch ih =>
    simp only [List.map_cons, buildItems, List.filterMap_cons]
    rcases List.mem_cons.1 hm with rfl | hm
    · obtain ⟨hne, htrim⟩ := hids m List.mem_cons_self
      have hid : syncItemId ((hubItem worker m).field? "id") (moment.uuidv7 i) =
          syncItemId ((hubItem worker m).field? "id") uuid := by
        rw [hubItem_id, syncItemId_of_trimmed hne htrim, syncItemId_of_trimmed hne htrim]
      obtain ⟨t, ht⟩ := buildSyncPushItem_later h hnow hid
      refine ⟨t, ?_⟩
      rw [ht]
      exact List.mem_cons_self
    · obtain ⟨t, ht⟩ := ih (fun x hx => hids x (List.mem_cons_of_mem _ hx)) hm (i := i + 1)
      refine ⟨t, ?_⟩
      cases buildSyncPushItem worker (hubItem worker first) moment.now (moment.uuidv7 i) with
      | error reason => exact ht
      | ok first => exact List.mem_cons_of_mem _ ht

/-- **The Worker's push answer always satisfies the hub's acceptance check.**  A batch with distinct,
trimmed ids that is answered with success has every id in exactly one of the four lists and no other
id in any; without a conflict the hub accepts the answer.  The same batch sent again later, to the
log as it is then, finds each message that was accepted as a duplicate, and there is one row of it. -/
theorem push_disposed (worker : Worker) (d : Doubles) {log log₁ : BusLog} {hub : String}
    {batch : List Sync.Message} {moment : Moment} {answer : Value}
    (hlen : batch.length ≤ 500) (hnodup : (batch.map fun m => m.id).Nodup)
    (hids : ∀ m ∈ batch, m.id ≠ "" ∧ Js.trim m.id = m.id)
    (h : postSyncPush worker log hub (pushBody worker batch) moment = (log₁, .ok answer)) :
    (disposed answer).Perm (batch.map fun m => some m.id) ∧
    (∃ body, readAnswer d (.ok answer) = some body ∧
      (listed answer "conflicts" = [] → (Sync.messageOutcome body batch).isSome)) ∧
    ∀ {log₂ log₃ : BusLog} {moment₂ : Moment} {answer₂ : Value},
      log₁.rows ⊆ log₂.rows → moment.now ≤ moment₂.now →
      postSyncPush worker log₂ hub (pushBody worker batch) moment₂ = (log₃, .ok answer₂) →
      ∀ id, some id ∈ listed answer "accepted" →
        some id ∈ listed answer₂ "duplicates" ∧ some id ∉ listed answer₂ "accepted" ∧
        some id ∉ listed answer₂ "conflicts" ∧
        (log₃.rows.filter fun row => row.originHub == hub && row.id == id).length = 1 := by
  refine ⟨disposed_perm hlen hids h, messageOutcome_of_answer hlen hnodup hids h, ?_⟩
  intro log₂ log₃ moment₂ answer₂ hrows hnow h₂ id hid
  -- the row the first push wrote
  obtain ⟨built, items, results, rfl, rfl, hstored, rfl⟩ := postSyncPush_ok hlen h
  rw [listed_str rfl, List.mem_map] at hid
  obtain ⟨id', hid', heq⟩ := hid
  obtain rfl := Option.some.inj heq
  obtain ⟨⟨item, result⟩, hx, rfl⟩ := List.mem_map.1 hid'
  obtain ⟨hzip, hkind⟩ := List.mem_filter.1 hx
  obtain ⟨row, rfl⟩ : ∃ row, result = .accepted row := by
    cases result with
    | accepted row => exact ⟨row, rfl⟩
    | duplicate | conflict | rejected => cases hkind
  obtain ⟨hs, hrow, hholds, -⟩ := (storeItems_pushed hstored).accepted item row hzip
  obtain ⟨m, hm, uuid, hbuild⟩ := mem_items (List.of_mem_zip hzip).1
  -- the item the second push builds for it
  have hperm := disposed_perm hlen hids h₂
  obtain ⟨built₂, items₂, results₂, rfl, rfl, hstored₂, hanswer₂⟩ := postSyncPush_ok hlen h₂
  obtain ⟨t, ht⟩ := mem_items_later hids hm hbuild hnow (i := 0)
  obtain ⟨result₂, hzip₂⟩ := exists_mem_zip ht (storeItems_length hstored₂).ge
  have hmatches : row.Matches hub { item with timestampUtc := t }.toMessageFields :=
    hholds.matches
  have hs₂ : Storable hub { item with timestampUtc := t } := hs
  have hdup : result₂ = .duplicate row := by
    apply syncItems_duplicate log₂ _ hs₂ (hrows hrow) hmatches
    rw [storeItems_fst]
    show _ ∈ List.zip _ (storeItems worker log₂ hub _ moment₂).2.1
    rw [hstored₂]
    exact hzip₂
  have hduplicate : some item.id ∈ listed answer₂ "duplicates" := by
    rw [hanswer₂, listed_str rfl]
    apply List.mem_map_of_mem
    refine List.mem_map.2 ⟨({ item with timestampUtc := t }, result₂), ?_, rfl⟩
    exact List.mem_filter.2 ⟨hzip₂, by rw [hdup]; rfl⟩
  have hbatch : (batch.map fun m => some m.id).Nodup := by
    have hsome := hnodup.map (Option.some_injective String)
    rwa [List.map_map] at hsome
  have hall := hperm.nodup_iff.2 hbatch
  simp only [disposed, List.nodup_append] at hall
  obtain ⟨⟨⟨-, -, hacc⟩, -, hconf⟩, -⟩ := hall
  refine ⟨hduplicate, fun h => hacc _ h _ hduplicate rfl,
    fun h => hconf _ (List.mem_append_right _ hduplicate) _ h rfl, ?_⟩
  have hrow₃ : row ∈ log₃.rows := (storeItems_pushed hstored₂).grows.subset (hrows hrow)
  obtain ⟨horigin, hrowId, -⟩ := hmatches
  rw [filter_eq_singleton hrow₃ (by simp [horigin, hrowId])]
  · rfl
  · intro other _ hother
    simp only [Bool.and_eq_true, beq_iff_eq] at hother
    exact ⟨hother.1.trans horigin.symm, Or.inl (hother.2.trans hrowId.symm)⟩

/-! ### A batch that is sent twice -/

/-- A Worker for documents whose numbers are small integers. -/
def sampleWorker : Worker where
  numbers := ⟨.float, .int⟩
  dates := isoDates
  choose := fun _ => 0

def sampleMoment : Moment where
  now := 1790510400000
  storedAt := 1790510400000
  uuidv7 := fun _ => ""
  fault := fun _ => .none

def sampleMessage : Sync.Message where
  id := "m-1"
  timestampUtc := "2026-01-01T00:00:00.123456Z"
  protocolVersion := "1.0"
  fromAgent := "alice"
  toAgent := "bob"
  topic := "note"
  body := "hello"
  threadId := none
  tags := []
  priority := "normal"
  requestAck := false
  replyTo := none
  metadata := .obj []
  streamId := none
  clientMsgId := some "c-1"
  originHub := none
  originSeq := none
  hlc := none
  sensitivity := none

/-- Three messages with one `client_msg_id`, the last with another body. -/
def sampleBatch : List Sync.Message :=
  [sampleMessage, { sampleMessage with id := "m-2" },
   { sampleMessage with id := "m-3", body := "bye" }]

def sampleAnswers (accepted duplicates conflicts : List String) : Value :=
  .obj [("accepted", .arr (accepted.map .str)), ("duplicates", .arr (duplicates.map .str)),
    ("conflicts", .arr (conflicts.map .str)), ("rejected", .arr []), ("cursor", .int 1)]

theorem push_disposed_sampleBatch :
    let first := postSyncPush sampleWorker BusLog.empty "hub-a" (pushBody sampleWorker sampleBatch)
      sampleMoment
    let again := postSyncPush sampleWorker first.1 "hub-a" (pushBody sampleWorker sampleBatch)
      sampleMoment
    first.2 = .ok (sampleAnswers ["m-1"] ["m-2"] ["m-3"]) ∧
      again.2 = .ok (sampleAnswers [] ["m-1", "m-2"] ["m-3"]) ∧
      (disposed (sampleAnswers ["m-1"] ["m-2"] ["m-3"])).Perm [some "m-1", some "m-2", some "m-3"] ∧
      some "m-1" ∈ listed (sampleAnswers [] ["m-1", "m-2"] ["m-3"]) "duplicates" ∧
      (again.1.rows.filter fun row => row.originHub == "hub-a" && row.id == "m-1").length = 1 := by
  intro first again
  have hfirst : first.2 = .ok (sampleAnswers ["m-1"] ["m-2"] ["m-3"]) := by decide +kernel
  have hagain : again.2 = .ok (sampleAnswers [] ["m-1", "m-2"] ["m-3"]) := by decide +kernel
  have hids : ∀ m ∈ sampleBatch, m.id ≠ "" ∧ Js.trim m.id = m.id := by decide
  obtain ⟨hperm, -, hreplay⟩ := push_disposed sampleWorker plainDoubles (by decide) (by decide) hids
    (Prod.ext rfl hfirst : first = (first.1, .ok (sampleAnswers ["m-1"] ["m-2"] ["m-3"])))
  obtain ⟨hdup, -, -, hone⟩ := hreplay (fun _ h => h) (le_refl _)
    (Prod.ext rfl hagain : again = (again.1, .ok (sampleAnswers [] ["m-1", "m-2"] ["m-3"]))) "m-1"
    (by decide)
  exact ⟨hfirst, hagain, hperm, hdup, hone⟩

end AgentHub.Cloud
