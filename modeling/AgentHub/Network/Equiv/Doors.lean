import AgentHub.Cloud.Import
import AgentHub.Cloud.Post
import AgentHub.Network.Equiv.Content

/-!
# The doors of the cloud

Three ways lead into the log: the push of a sync engine, the push of the importer, and a direct
post.  A message that is to stay on site is kept from the first by the hub.  The other two are left
to the Worker, which looks at the field `sensitivity` alone; the importer does not send it.
-/

namespace AgentHub.Cloud

open AgentHub.Json AgentHub.Outbox BusLog

variable {worker : Worker}

/-! ### The checks of the validator -/

/-- Every check of the shared validator that does not look at the sensitivity, with what it leaves of
the message. -/
structure Passes (req : Value) (core : CoreMessageFields) : Prop where
  priority : validatePriority ((Js.given (req.field? "priority")).getD (.str "normal")) =
    .ok core.priority
  sender : ∃ sender, validateOptionalString (req.field? "sender") "sender" maxSenderLen =
    .ok sender ∧ core.sender = sender.getD ""
  recipient : requiredString (req.field? "recipient") "recipient" maxRecipientLen =
    .ok core.recipient
  topic : requiredString (req.field? "topic") "topic" maxTopicLen = .ok core.topic
  body : requiredString (req.field? "body") "body" maxBodyLen = .ok core.body
  tags : validateTags (req.field? "tags") = .ok core.tags
  threadId : validateOptionalString (req.field? "thread_id") "thread_id" maxThreadIdLen =
    .ok core.threadId
  replyTo : validateOptionalString (req.field? "reply_to") "reply_to" maxReplyToLen =
    .ok core.replyTo
  clientMsgId : validateOptionalString (req.field? "client_msg_id") "client_msg_id"
    maxClientMsgIdLen = .ok core.clientMsgId
  hlc : validateOptionalString (req.field? "hlc") "hlc" maxHlcLen = .ok core.hlc
  size : ∃ metadataBytes, validateMetadataSize (req.field? "metadata") = .ok metadataBytes ∧
    validateTotalSize
      ([core.body, core.sender, core.recipient, core.topic] ++
        [core.threadId, core.replyTo, core.clientMsgId, core.hlc].filterMap id ++ core.tags)
      metadataBytes = .ok ()
  phi : assertNoPhi
    [some core.body, (req.field? "metadata").map Js.stringify, some (Text.join " " core.tags),
      some core.topic, core.threadId, some core.recipient] = .ok ()
  metadata : core.metadata = (Js.given (req.field? "metadata")).getD (.obj [])

/-- **The validator passes what its field says is internal and what passes the other checks.** -/
theorem validateMessageCore_eq_ok {req : Value} {core : CoreMessageFields} :
    validateMessageCore req = .ok core ↔
      validateSensitivity (req.field? "sensitivity") = .ok .internal ∧ Passes req core := by
  constructor
  · intro h
    simp only [validateMessageCore, bind_eq_ok] at h
    obtain ⟨priority, h₁, sender, h₂, recipient, h₃, topic, h₄, body, h₅, tags, h₆, thread, h₇,
      reply, h₈, client, h₉, hlc, h₁₀, sensitivity, hs, _, hinternal, bytes, h₁₁, _, h₁₂, _, h₁₃,
      hcore⟩ := h
    obtain rfl := Except.ok.inj hcore
    have hvalue : sensitivity = .internal := by
      have hne := require_eq_ok.1 hinternal
      cases sensitivity with
      | internal => rfl
      | noOffsite => simp at hne
    exact ⟨hvalue ▸ hs, h₁, ⟨sender, h₂, rfl⟩, h₃, h₄, h₅, h₆, h₇, h₈, h₉, h₁₀, ⟨bytes, h₁₁, h₁₂⟩,
      h₁₃, rfl⟩
  · rintro ⟨hs, h₁, ⟨sender, h₂, hsender⟩, h₃, h₄, h₅, h₆, h₇, h₈, h₉, h₁₀, ⟨bytes, h₁₁, h₁₂⟩, h₁₃,
      hmetadata⟩
    obtain ⟨⟩ := core
    subst hsender hmetadata
    simp only [validateMessageCore, bind_eq_ok]
    exact ⟨_, h₁, sender, h₂, _, h₃, _, h₄, _, h₅, _, h₆, _, h₇, _, h₈, _, h₉, _, h₁₀, .internal, hs,
      (), rfl, bytes, h₁₁, (), h₁₂, (), h₁₃, rfl⟩

theorem requiredString_ok {v : Option Value} {name s : String} {maxLen : Nat}
    (h : requiredString v name maxLen = .ok s) : s ≠ "" ∧ Js.trim s = s := by
  unfold requiredString at h
  split at h
  case h_1 =>
    obtain ⟨rfl, hne⟩ := nonEmpty_ok h
    exact ⟨hne, Js.trim_trim _⟩
  case h_2 =>
    obtain ⟨rfl, hne⟩ := nonEmpty_ok h
    exact ⟨hne, Js.trim_trim _⟩
  case h_3 => cases h

seal Js.trim in
theorem validateOptionalString_ok {v : Option Value} {name s : String} {maxLen : Nat}
    (h : validateOptionalString v name maxLen = .ok (some s)) : s ≠ "" ∧ Js.trim s = s := by
  unfold validateOptionalString at h
  split at h
  case h_1 => cases h
  case h_2 t _ =>
    have htrimmed := validateOptionalString_str (s := t) h
    rw [Sync.nonEmpty] at htrimmed
    split at htrimmed
    case isTrue => cases htrimmed
    case isFalse hne =>
      obtain rfl := Option.some.inj htrimmed
      exact ⟨by simpa using hne, Js.trim_trim t⟩
  case h_3 => cases h

/-- A text that is required, or a sender that is there, is not blank. -/
theorem Passes.nonblank {req : Value} {core : CoreMessageFields} (h : Passes req core)
    (hsender : core.sender ≠ "") :
    ∀ s ∈ [core.sender, core.recipient, core.topic, core.body], (Js.trim s).isEmpty = false := by
  have hne : ∀ s : String, s ≠ "" ∧ Js.trim s = s → (Js.trim s).isEmpty = false := by
    rintro s ⟨hs, htrim⟩
    rw [htrim]
    simpa using hs
  have hsender' : core.sender ≠ "" ∧ Js.trim core.sender = core.sender := by
    obtain ⟨sender, hok, heq⟩ := h.sender
    cases sender with
    | none => exact absurd heq hsender
    | some s =>
      rw [heq]
      exact validateOptionalString_ok hok
  simp only [List.mem_cons, List.not_mem_nil, or_false]
  rintro s (rfl | rfl | rfl | rfl)
  · exact hne _ hsender'
  · exact hne _ (requiredString_ok h.recipient)
  · exact hne _ (requiredString_ok h.topic)
  · exact hne _ (requiredString_ok h.body)

/-! ### Items of a push -/

/-- An item of a push that the Worker stores at some moment, but for its sensitivity. -/
structure Admissible (worker : Worker) (hub : String) (req : Value) : Prop where
  core : ∃ core, Passes req core ∧ core.sender ≠ ""
  id : ∃ uuid id, syncItemId (req.field? "id") uuid = .ok id ∧ Js.length id ≤ maxSyncIdLen ∧
    rejectNulBytes id "id" = .ok ()
  timestampUtc : ∃ now t, syncItemTimestamp worker (req.field? "timestamp_utc") now = .ok t
  protocolVersion : ∃ version, syncItemVersion (req.field? "protocol_version") = .ok version
  originSeq : ∃ n, coerceOptionalInt (req.field? "origin_seq") "origin_seq" = .ok n
  originHost : ∃ host,
    validateOptionalString (req.field? "origin_host") "origin_host" maxOriginHostLen = .ok host
  originHub : ∃ origin,
    validateOptionalString (req.field? "origin_hub") "origin_hub" maxOriginHubLen = .ok origin ∧
      ((origin.filter fun hub => !hub.isEmpty).any fun origin => origin ≠ hub) = false

/-- **What can be stored of an item.** -/
theorem exists_storable_iff {req : Value} {hub : String} :
    (∃ now uuid input, buildSyncPushItem worker req now uuid = .ok input ∧ Storable hub input) ↔
      validateSensitivity (req.field? "sensitivity") = .ok .internal ∧ Admissible worker hub req := by
  constructor
  · rintro ⟨now, uuid, input, hbuild, -, -, horigin⟩
    obtain ⟨core, id, ts, version, seq, host, hub', hcore, hsender, hid, hlen, hnul, hts, hversion,
      hseq, hhost, hhub, rfl⟩ := buildSyncPushItem_ok hbuild
    obtain ⟨hs, hpasses⟩ := validateMessageCore_eq_ok.1 hcore
    exact ⟨hs, ⟨core, hpasses, by simpa using hsender⟩, ⟨uuid, id, hid, hlen, hnul⟩,
      ⟨now, ts, hts⟩, ⟨version, hversion⟩, ⟨seq, hseq⟩, ⟨host, hhost⟩, ⟨hub', hhub, horigin⟩⟩
  · rintro ⟨hs, ⟨core, hpasses, hsender⟩, ⟨uuid, id, hid, hlen, hnul⟩, ⟨now, ts, hts⟩,
      ⟨version, hversion⟩, ⟨seq, hseq⟩, ⟨host, hhost⟩, ⟨origin, hhub, horigin⟩⟩
    have hcore := validateMessageCore_eq_ok.2 ⟨hs, hpasses⟩
    have hsender' : (!core.sender.isEmpty) = true := by simpa using hsender
    have hlen' : decide (Js.length id ≤ maxSyncIdLen) = true := decide_eq_true hlen
    have hblank := hpasses.nonblank hsender
    refine ⟨now, uuid, ?_⟩
    simp only [buildSyncPushItem, bind_eq_ok]
    refine ⟨_, ⟨core, hcore, (), require_eq_ok.2 hsender', id, hid, (), require_eq_ok.2 hlen', (),
      hnul, ts, hts, version, hversion, seq, hseq, host, hhost, origin, hhub, rfl⟩, ?_, ?_, horigin⟩
    · intro habs
      cases habs
    · simpa using hblank

theorem mem_buildItems {moment : Moment} {i : Nat} {messages : List Value} {req : Value}
    {r : Checked InsertMessageInput} (h : (req, r) ∈ buildItems worker moment i messages) :
    ∃ k, r = buildSyncPushItem worker req moment.now (moment.uuidv7 k) := by
  induction messages generalizing i with
  | nil => cases h
  | cons m messages ih =>
    rw [buildItems, List.mem_cons] at h
    rcases h with heq | h
    · cases heq
      exact ⟨i, rfl⟩
    · exact ih h

/-- The items of a push with the rows they are stored as. -/
def storedItems (worker : Worker) (log : BusLog) (hub : String) (messages : List Value)
    (moment : Moment) : List (Value × Row) :=
  let built := buildItems worker moment 0 messages
  let results := (storeItems worker log hub (built.filterMap fun x => x.2.toOption) moment).2.1
  ((built.filter fun x => x.2.isOk).zip results).filterMap fun x =>
    match x.2 with
    | .accepted row => some (x.1.1, row)
    | _ => none

/-- The items a request to `/sync/push` stores, with their rows. -/
def pushedItems (worker : Worker) (log : BusLog) (hub : String) (body : Value) (moment : Moment) :
    List (Value × Row) :=
  if body = .null then []
  else if Js.truthy (body.field? "origin_hub") ∧ body.field? "origin_hub" ≠ some (.str hub) then []
  else
    match messageList (body.field? "messages") with
    | none => []
    | some (messages, length) =>
      if 500 < length then []
      else if messages.contains .null then []
      else storedItems worker log hub messages moment

/-- An item that is stored could be built and stored. -/
theorem storable_of_mem {log : BusLog} {hub : String} {body : Value} {moment : Moment} {req : Value}
    {row : Row} (h : (req, row) ∈ pushedItems worker log hub body moment) :
    ∃ now uuid input, buildSyncPushItem worker req now uuid = .ok input ∧ Storable hub input := by
  -- every refusal of the request stores nothing
  have hitems : ∃ messages, (req, row) ∈ storedItems worker log hub messages moment := by
    unfold pushedItems at h
    split at h
    · cases h
    split at h
    · cases h
    split at h
    · cases h
    split at h
    · cases h
    split at h
    · cases h
    exact ⟨_, h⟩
  obtain ⟨messages, hmem⟩ := hitems
  obtain ⟨⟨⟨req', r⟩, result⟩, hzip, hrow⟩ := List.mem_filterMap.1 hmem
  cases result with
  | accepted row' =>
    obtain ⟨rfl, rfl⟩ := Prod.mk.inj (Option.some.inj hrow)
    -- the row is the result of the one item it stands beside
    have hbuilt := (List.mem_filter.1 (List.of_mem_zip hzip).1).1
    obtain ⟨input, rfl, hinput⟩ := mem_zip_filter_isOk
      (f := fun x : Value × Checked InsertMessageInput => x.2) hzip
    obtain ⟨hstorable, -⟩ := (storeItems_pushed rfl).accepted input row' hinput
    obtain ⟨k, hbuild⟩ := mem_buildItems hbuilt
    exact ⟨moment.now, moment.uuidv7 k, input, hbuild.symm, hstorable⟩
  | _ => cases hrow

/-! ### The importer -/

section Import

variable {python : Python} {excludedIds : List String} {hub host : String} {row : ExportRow}

/-- Some import of a row stores its item. -/
def ImportStores (worker : Worker) (python : Python) (excludedIds : List String)
    (hub host : String) (row : ExportRow) : Prop :=
  ∃ rows items start log moment item stored,
    row ∈ rows ∧ importItems python excludedIds hub host rows = some items ∧
    messageItem python row hub host = some item ∧
    (Js.parse worker.numbers item, stored) ∈ pushedItems worker log hub
      (importBody worker hub ((items.drop start).take 500)) moment

/-- The importer sends no sensitivity. -/
theorem messageItem_sensitivity {item : Value} (h : messageItem python row hub host = some item) :
    (Js.parse worker.numbers item).field? "sensitivity" = none := by
  simp only [messageItem, Option.bind_eq_bind, Option.bind_eq_some_iff, Option.pure_def,
    Option.some.injEq] at h
  obtain ⟨t, -, tags, -, metadata, -, rfl⟩ := h
  have hnodup : ((itemSlots row t tags metadata hub host).map Prod.fst).Nodup := by
    show ["id", "timestamp_utc", "protocol_version", "sender", "recipient", "topic", "body", "tags",
      "priority", "request_ack", "metadata", "origin_hub", "origin_host", "thread_id",
      "reply_to"].Nodup
    decide
  rw [Js.parse_obj _ (compact_keys_nodup hnodup), get_compact hnodup]
  rfl

/-- An empty log takes every message. -/
theorem insertMessage_empty (choose : List Row → Nat) (fields : MessageFields) (hub : String)
    (now : Int) :
    ∃ log row, insertMessage choose BusLog.empty fields hub now .none = .inserted log row := by
  have hclash : ∀ old ∈ BusLog.empty.rows, ¬ old.Clash (BusLog.empty.newRow fields hub now) := by
    simp [BusLog.empty]
  obtain ⟨x, hx⟩ : ∃ x, BusLog.empty.insertRow fields hub now = some x := by
    simp only [insertRow, dif_pos hclash]
    exact ⟨_, rfl⟩
  have hnone : limitOne choose (BusLog.empty.withKey hub fields.id
      (fields.clientMsgId.filter fun key => !key.isEmpty)) = none := rfl
  refine ⟨x.1, x.2, ?_⟩
  rw [insertMessage, if_neg (by decide), hnone]
  · intro fault habs
    cases habs
  · exact hx

/-- An item that can be built and stored is stored in an empty log. -/
theorem storedItems_of_storable {req : Value} {now : Int} {uuid : String}
    {input : InsertMessageInput} (hbuild : buildSyncPushItem worker req now uuid = .ok input)
    (hstorable : Storable hub input) :
    ∃ moment stored, (req, stored) ∈ storedItems worker BusLog.empty hub [req] moment := by
  obtain ⟨log, row, hinsert⟩ := insertMessage_empty worker.choose input.toMessageFields hub 0
  have hitem : syncItem worker.choose BusLog.empty hub input 0 .none =
      some (log, .accepted row) := by
    rw [syncItem_of_storable hstorable, hinsert]
  refine ⟨⟨now, 0, fun _ => uuid, fun _ => .none⟩, row, ?_⟩
  simp only [storedItems, buildItems, hbuild, List.filterMap_cons, Except.toOption,
    List.filterMap_nil, storeItems, List.zipIdx_cons, List.zipIdx_nil, List.map_cons, List.map_nil,
    syncItems, hitem]
  exact List.mem_cons_self

/-- **The importer stores a row exactly if the rest of its item is in order**, whatever the row's
sensitivity. -/
theorem importStores_iff (hskip : skipped python excludedIds row = false) :
    ImportStores worker python excludedIds hub host row ↔
      ∃ item, messageItem python row hub host = some item ∧
        Admissible worker hub (Js.parse worker.numbers item) := by
  constructor
  · rintro ⟨rows, items, start, log, moment, item, stored, -, -, hitem, hmem⟩
    exact ⟨item, hitem, (exists_storable_iff.1 (storable_of_mem hmem)).2⟩
  · rintro ⟨item, hitem, hadmissible⟩
    -- the importer's item has no sensitivity, so the Worker takes it as internal
    have hsensitivity := @messageItem_sensitivity worker _ _ _ _ _ hitem
    have hinternal : validateSensitivity ((Js.parse worker.numbers item).field? "sensitivity") =
        .ok .internal := by
      rw [hsensitivity]
      rfl
    obtain ⟨now, uuid, input, hbuild, hstorable⟩ :=
      exists_storable_iff.2 ⟨hinternal, hadmissible⟩
    obtain ⟨moment, stored, hmem⟩ := storedItems_of_storable hbuild hstorable
    -- one row in one request, to a log without rows
    refine ⟨[row], [item], 0, BusLog.empty, moment, item, stored, List.mem_cons_self, ?_, hitem, ?_⟩
    · simp only [importItems, hskip, List.filter_cons, List.filter_nil, Bool.not_false, if_true,
        List.mapM_cons, List.mapM_nil, hitem]
      rfl
    · -- the request holds the one item
      have hbody : importBody worker hub (([item].drop 0).take 500) =
          .obj [("origin_hub", .str hub), ("messages", .arr [Js.parse worker.numbers item])] := rfl
      have hreq : Js.parse worker.numbers item ≠ .null := by
        intro hnull
        obtain ⟨core, hpasses, -⟩ := hadmissible.core
        have hbody := hpasses.body
        rw [hnull] at hbody
        cases hbody
      have hnull : [Js.parse worker.numbers item].contains .null = false := by
        rw [Bool.eq_false_iff, ne_eq, List.contains_iff_mem, List.mem_singleton]
        exact fun h => hreq h.symm
      have horigin : (Value.obj [("origin_hub", .str hub),
          ("messages", .arr [Js.parse worker.numbers item])]).field? "origin_hub" =
          some (.str hub) := rfl
      have hmessages : (Value.obj [("origin_hub", .str hub),
          ("messages", .arr [Js.parse worker.numbers item])]).field? "messages" =
          some (.arr [Js.parse worker.numbers item]) := rfl
      rw [hbody, pushedItems, if_neg (by simp), horigin, if_neg (by simp), hmessages]
      simp only [messageList, Js.given, List.length_singleton]
      rw [if_neg (by decide), if_neg (by rw [hnull]; exact Bool.false_ne_true)]
      exact hmem

end Import

/-! ### Direct posts -/

/-- A request with the sensitivity, the metadata and the tags of a message. -/
structure Carries (worker : Worker) (m : Sync.Message) (req : Value) : Prop where
  sensitivity : Js.given (req.field? "sensitivity") = m.sensitivity.map fun s => .str s.asStr
  metadata : req.field? "metadata" = some (Js.parse worker.numbers m.metadata)
  tags : req.field? "tags" = some (.arr (m.tags.map .str))

/-- Some post with the sensitivity, the metadata and the tags of a message is stored. -/
def PostStores (worker : Worker) (m : Sync.Message) : Prop :=
  ∃ req cloudIdentity log identity moment, Carries worker m req ∧
    (postMessages worker cloudIdentity log identity req moment).2.isSome

/-- Tags and metadata the Worker takes. -/
structure PlainLabels (worker : Worker) (m : Sync.Message) : Prop where
  tags : ∃ tags, validateTags (some (.arr (m.tags.map .str))) = .ok tags
  metadata : ∃ size,
    validateMetadataSize (some (Js.parse worker.numbers m.metadata)) = .ok size
  phi : assertNoPhi [some (Js.stringify (Js.parse worker.numbers m.metadata)),
    some (Text.join " " m.tags)] = .ok ()

theorem assertNoPhi_eq_ok {texts : List (Option String)} :
    assertNoPhi texts = .ok () ↔
      ∀ s, some s ∈ texts → s ≠ "" → containsObviousPhi s = false := by
  rw [assertNoPhi, require_eq_ok, List.all_eq_true]
  constructor
  · intro h s hs hne
    have hall := h (some s) hs
    rw [Option.filter_some, if_pos (by simpa using hne)] at hall
    simpa using hall
  · intro h text htext
    cases text with
    | none => rfl
    | some s =>
      rw [Option.filter_some]
      split
      case isTrue hne => simpa using h s htext (by simpa using hne)
      case isFalse => rfl

theorem validateSensitivity_asStr {v : Option Value} {s : Option Sync.Sensitivity}
    (h : Js.given v = s.map fun s => .str s.asStr) :
    validateSensitivity v = .ok .internal ↔ s ≠ some .noOffsite := by
  unfold validateSensitivity
  rw [h]
  cases s with
  | none => simp
  | some s => cases s <;> simp [Sync.Sensitivity.asStr]

/-- The tags that pass are few and short. -/
theorem stringItems_length {name : String} {maxLen i : Nat} {texts texts' : List String}
    (h : stringItems name maxLen i (texts.map .str) = .ok texts') :
    (texts.map Js.length).sum ≤ texts.length * maxLen := by
  induction texts generalizing i texts' with
  | nil => exact Nat.zero_le _
  | cons s texts ih =>
    simp only [List.map_cons, stringItems, bind_eq_ok] at h
    obtain ⟨_, hlen, _, -, rest, hrest, -⟩ := h
    have hs : Js.length s ≤ maxLen := by simpa using require_eq_ok.1 hlen
    have hsum := ih hrest
    rw [List.map_cons, List.sum_cons, List.length_cons, Nat.add_mul]
    omega

theorem validateTags_length {texts texts' : List String}
    (h : validateTags (some (.arr (texts.map .str))) = .ok texts') :
    (texts.map Js.length).sum ≤ 16384 := by
  simp only [validateTags, validateStringArray, Js.given, check_bind_eq_ok, require_eq_ok,
    List.length_map, decide_eq_true_eq] at h
  have hsum := stringItems_length h.2
  have hcount := h.1
  unfold maxTagsCount at hcount
  unfold maxTagLen at hsum
  omega

/-- The fields of a post with nothing in it but what it has to have. -/
def plainSlots (worker : Worker) (m : Sync.Message) : List (String × Option Value) :=
  [("sender", some (.str "a")), ("recipient", some (.str "b")), ("topic", some (.str "t")),
   ("body", some (.str "x")), ("schema", some (.str "status")),
   ("tags", some (.arr (m.tags.map .str))),
   ("metadata", some (Js.parse worker.numbers m.metadata)),
   ("sensitivity", m.sensitivity.map fun s => .str s.asStr)]

def plainPost (worker : Worker) (m : Sync.Message) : Value :=
  .obj (Fields.compact (plainSlots worker m))

theorem plainPost_field? (worker : Worker) (m : Sync.Message) (k : String) :
    (plainPost worker m).field? k = ((plainSlots worker m).lookup k).join := by
  have hnodup : ((plainSlots worker m).map Prod.fst).Nodup := by
    show ["sender", "recipient", "topic", "body", "schema", "tags", "metadata",
      "sensitivity"].Nodup
    decide
  exact get_compact hnodup k

theorem carries_plainPost (m : Sync.Message) : Carries worker m (plainPost worker m) where
  sensitivity := by
    rw [plainPost_field?]
    show Js.given (m.sensitivity.map fun s => Value.str s.asStr) = _
    cases m.sensitivity <;> rfl
  metadata := plainPost_field? worker m "metadata"
  tags := plainPost_field? worker m "tags"

/-- What the checks leave of the plain post. -/
def plainCore (worker : Worker) (m : Sync.Message) : CoreMessageFields where
  sender := "a"
  recipient := "b"
  topic := "t"
  body := "x"
  tags := m.tags
  priority := "normal"
  metadata := (Js.given (some (Js.parse worker.numbers m.metadata))).getD (.obj [])
  threadId := none
  replyTo := none
  clientMsgId := none
  hlc := none

theorem passes_plainPost {m : Sync.Message} (h : PlainLabels worker m) :
    Passes (plainPost worker m) (plainCore worker m) := by
  obtain ⟨⟨tags, htags⟩, ⟨size, hsize⟩, hphi⟩ := h
  -- of the fields only the labels come from the message
  have field := plainPost_field? worker m
  have hmetadata : (plainPost worker m).field? "metadata" =
      some (Js.parse worker.numbers m.metadata) := field "metadata"
  have hpriority : (plainPost worker m).field? "priority" = none := field "priority"
  have hsender : (plainPost worker m).field? "sender" = some (.str "a") := field "sender"
  have hrecipient : (plainPost worker m).field? "recipient" = some (.str "b") := field "recipient"
  have htopic : (plainPost worker m).field? "topic" = some (.str "t") := field "topic"
  have hbody : (plainPost worker m).field? "body" = some (.str "x") := field "body"
  have htagsField : (plainPost worker m).field? "tags" = some (.arr (m.tags.map .str)) :=
    field "tags"
  have hthread : (plainPost worker m).field? "thread_id" = none := field "thread_id"
  have hreply : (plainPost worker m).field? "reply_to" = none := field "reply_to"
  have hclient : (plainPost worker m).field? "client_msg_id" = none := field "client_msg_id"
  have hhlc : (plainPost worker m).field? "hlc" = none := field "hlc"
  have htags' : validateTags (some (.arr (m.tags.map .str))) = .ok m.tags := by
    rw [htags, validateTags_str htags]
  refine ⟨?_, ⟨some "a", ?_, rfl⟩, ?_, ?_, ?_, ?_, ?_, ?_, ?_, ?_, ⟨size, ?_, ?_⟩, ?_, ?_⟩
  · rw [hpriority]
    show validatePriority (.str "normal") = .ok "normal"
    decide
  · rw [hsender]
    decide
  · rw [hrecipient]
    show requiredString (some (.str "b")) "recipient" maxRecipientLen = .ok "b"
    decide
  · rw [htopic]
    show requiredString (some (.str "t")) "topic" maxTopicLen = .ok "t"
    decide
  · rw [hbody]
    show requiredString (some (.str "x")) "body" maxBodyLen = .ok "x"
    decide
  · rw [htagsField]
    exact htags'
  · rw [hthread]
    rfl
  · rw [hreply]
    rfl
  · rw [hclient]
    rfl
  · rw [hhlc]
    rfl
  · rw [hmetadata]
    exact hsize
  · -- the largest tags and metadata leave room
    have hsum := validateTags_length htags
    have hbytes : size ≤ maxMetadataBytes := by
      unfold validateMetadataSize at hsize
      split at hsize
      case h_1 =>
        obtain rfl := Except.ok.inj hsize
        exact Nat.zero_le _
      case h_2 =>
        rw [check_bind_eq_ok, require_eq_ok, decide_eq_true_eq] at hsize
        obtain rfl := Except.ok.inj hsize.2
        exact hsize.1
    rw [validateTotalSize, require_eq_ok, decide_eq_true_eq]
    show size + (["x", "a", "b", "t"] ++ m.tags |>.map Js.length).sum ≤ _
    rw [List.map_append, List.sum_append]
    have hfour : (["x", "a", "b", "t"].map Js.length).sum = 4 := by decide
    unfold maxMetadataBytes at hbytes
    unfold maxTotalMessageBytes
    omega
  · -- the screen looks at the metadata and the tags, the rest is one letter each
    rw [assertNoPhi_eq_ok] at hphi ⊢
    intro s hs hne
    rw [hmetadata] at hs
    simp only [Option.map_some, List.mem_cons, Option.some.injEq, List.not_mem_nil, or_false,
      plainCore, reduceCtorEq, false_or] at hs
    rcases hs with rfl | rfl | rfl | rfl | rfl
    · decide
    · exact hphi _ List.mem_cons_self hne
    · exact hphi _ (List.mem_cons_of_mem _ List.mem_cons_self) hne
    · decide
    · decide
  · rw [hmetadata]
    rfl

/-- The identity of an agent. -/
def plainIdentity : Identity where
  agent := "a"
  host := none
  role := .agent
  hub := none
  agent_ne := by decide
  host_ne := unnamed
  hub_iff := agent_hub_iff
  hub_ne := unnamed

/-- **A post is stored exactly if no field says that it is to stay on site and its labels pass.** -/
theorem postStores_iff (worker : Worker) (m : Sync.Message) :
    PostStores worker m ↔ m.sensitivity ≠ some .noOffsite ∧ PlainLabels worker m := by
  constructor
  · rintro ⟨req, cloudIdentity, log, identity, moment, hcarries, hstored⟩
    rw [postMessages] at hstored
    split at hstored
    case h_1 => cases hstored
    case h_2 input hbuild =>
      -- the fields that are checked are those the post carries
      simp only [buildValidatedMessage, bind_eq_ok] at hbuild
      obtain ⟨core, hcore, -⟩ := hbuild
      obtain ⟨hsensitivity, hpasses⟩ := validateMessageCore_eq_ok.1 hcore
      have htags := hpasses.tags
      rw [hcarries.tags] at htags
      obtain ⟨size, hsize, -⟩ := hpasses.size
      rw [hcarries.metadata] at hsize
      refine ⟨(validateSensitivity_asStr hcarries.sensitivity).1 hsensitivity, ⟨_, htags⟩,
        ⟨size, hsize⟩, ?_⟩
      have hphi := hpasses.phi
      rw [hcarries.metadata, validateTags_str htags] at hphi
      rw [assertNoPhi_eq_ok] at hphi ⊢
      intro s hs
      apply hphi s
      simp only [List.mem_cons, List.not_mem_nil, or_false] at hs
      rcases hs with hs | hs <;> simp [hs]
  · rintro ⟨hsensitivity, hlabels⟩
    have hcarries := @carries_plainPost worker m
    have hcore := validateMessageCore_eq_ok.2
      ⟨(validateSensitivity_asStr hcarries.sensitivity).2 hsensitivity, passes_plainPost hlabels⟩
    have field := plainPost_field? worker m
    -- the schema and the origin pass with the values they are given
    have hschema : (plainPost worker m).field? "schema" = some (.str "status") := field "schema"
    have hhost : (plainPost worker m).field? "origin_host" = none := field "origin_host"
    have hhub : (plainPost worker m).field? "origin_hub" = none := field "origin_hub"
    obtain ⟨input, hbuild, horigin⟩ : ∃ input, buildValidatedMessage (plainPost worker m)
        plainIdentity "cloud" ⟨0, 0, fun _ => "u", fun _ => .none⟩ = .ok input ∧
        input.originHub = some "cloud" := by
      simp only [buildValidatedMessage, bind_eq_ok]
      refine ⟨_, ⟨_, hcore, (), ?_, (), ?_, "a", ?_, none, ?_, none, ?_, none, rfl, "cloud", rfl, rfl⟩,
        rfl⟩
      · rw [hschema]
        show validateMessageSchema "x" .status = .ok ()
        decide
      · rw [hschema]
        show assertNoPhi [some "x"] = .ok ()
        decide
      · show bindAgent plainIdentity "a" "sender" = .ok "a"
        decide
      · rw [hhost]
        rfl
      · rw [hhub]
        rfl
    obtain ⟨log, row, hinsert⟩ :=
      insertMessage_empty worker.choose input.toMessageFields "cloud" 0
    refine ⟨plainPost worker m, "cloud", BusLog.empty, plainIdentity,
      ⟨0, 0, fun _ => "u", fun _ => .none⟩, hcarries, ?_⟩
    have hhub' : (input.originHub.filter fun hub => !hub.isEmpty) = some "cloud" := by
      rw [horigin]
      decide
    rw [postMessages, hbuild]
    simp only [hhub', hinsert]
    rfl

end AgentHub.Cloud

namespace AgentHub.Network

open AgentHub.Json AgentHub.Cloud AgentHub.Cloud.BusLog AgentHub.Sync

/-! ### The three doors -/

/-- An entry whose row is in the log was internal. -/
theorem FleetInv.internal_of_stored {d : Deployment} {s : Fleet} {tr : List FleetEvent}
    (h : FleetInv d s tr) {b : HubName} {id : StreamId} {row : Row} (hstored : .stored b id row ∈ tr)
    {entry : Entry} (hentry : entry ∈ (s.sites b).stream) (hid : entry.id = id) :
    (entry.message (d.codec b)).effectiveSensitivity = .internal := by
  obtain ⟨-, -, batch, hbatch, hmem⟩ := h.stored b id row hstored
  obtain ⟨x, hx, rfl⟩ := List.mem_map.1 hmem
  obtain ⟨entry', hentry', rfl, hpushable⟩ := h.pushed b batch hbatch x hx
  obtain rfl := h.entry_unique hentry hentry' hid
  rw [pushable, Bool.and_eq_true] at hpushable
  simpa using hpushable.2

/-- **Which doors keep a message on site.**  For a message that is not internal: no run of the sync
engines stores it; the importer fails to store its row exactly if a check that does not look at the
sensitivity refuses its item; and no direct post with its sensitivity, metadata and tags is stored
exactly if its own field says that it stays on site, or its metadata or tags are refused. -/
theorem offsite_doors (d : Deployment) (python : Python) :
    (∀ is, let s := ((Fleet.machine d).exec {} is).1
      let tr := ((Fleet.machine d).exec {} is).2
      ∀ b, ∀ entry ∈ (s.sites b).stream,
        (entry.message (d.codec b)).effectiveSensitivity ≠ .internal →
        ∀ row, .stored b entry.id row ∉ tr) ∧
    (∀ (identity : Identity) (hub : String), identity.hub = some hub → ∀ excludedIds host row m,
      row.message python = some m → m.effectiveSensitivity ≠ .internal →
      skipped python excludedIds row = false →
      (¬ ImportStores d.worker python excludedIds hub host row ↔
        ¬ ∃ item, messageItem python row hub host = some item ∧
          Admissible d.worker hub (Js.parse d.worker.numbers item))) ∧
    ∀ m : Message, m.effectiveSensitivity ≠ .internal →
      (¬ PostStores d.worker m ↔ m.sensitivity = some .noOffsite ∨ ¬ PlainLabels d.worker m) := by
  refine ⟨?_, ?_, ?_⟩
  · intro is s tr b entry hentry hne row hstored
    have hinv : FleetInv d s tr := fleetInv_exec d is
    exact hne (hinv.internal_of_stored hstored hentry rfl)
  · intro identity hub _ excludedIds host row m _ _ hskip
    rw [importStores_iff hskip]
  · intro m _
    rw [postStores_iff, not_and_or, not_ne_iff]

/-! ### A row and a post that should have stayed -/

/-- A library that knows the texts of one export. -/
def samplePython : Python where
  search := fun _ _ => false
  loads := fun s => (fromStr s.toList).toOption
  isoToUtc := fun s =>
    if s = "2026-06-12T12:06:02.895291-04:00" then some "2026-06-12T16:06:02.895291Z" else none

/-- A row whose column says that it stays on site. -/
def offsiteRow : ExportRow where
  id := "0197a3c2-0000-7000-8000-000000000001"
  timestampUtc := "2026-06-12 12:06:02.895291-04"
  protocolVersion := "1.0"
  sender := "alice"
  recipient := "bob"
  topic := "note"
  body := "for the lab only"
  threadId := some ""
  tags := "[]"
  priority := "normal"
  requestAck := "f"
  replyTo := some "alice"
  metadata := "\x7b\x7d"
  sensitivity := some "no-offsite"

/-- A message whose metadata says the same. -/
def offsiteMessage : Message :=
  { Cloud.sampleMessage with metadata := .obj [("sensitivity", .str "no-offsite")] }

/-- Both are stored: the importer does not send the column, and the Worker does not look into the
metadata. -/
theorem offsite_leaks :
    ((∃ m, offsiteRow.message samplePython = some m ∧ m.effectiveSensitivity = .noOffsite) ∧
      skipped samplePython [] offsiteRow = false ∧
      ImportStores sampleWorker samplePython [] "hub-a" "host-a" offsiteRow) ∧
    offsiteMessage.effectiveSensitivity = .noOffsite ∧ PostStores sampleWorker offsiteMessage := by
  refine ⟨⟨?_, by decide, ?_⟩, by decide, ?_⟩
  · obtain ⟨m, hm⟩ : ∃ m, offsiteRow.message samplePython = some m :=
      Option.isSome_iff_exists.1 (by decide)
    refine ⟨m, hm, ?_⟩
    -- the row says no-offsite in its metadata
    have hsensitivity : (offsiteRow.message samplePython).map Message.effectiveSensitivity =
        some .noOffsite := by
      decide +kernel
    rw [hm] at hsensitivity
    exact Option.some.inj hsensitivity
  · obtain ⟨item, hitem⟩ : ∃ item, messageItem samplePython offsiteRow "hub-a" "host-a" = some item :=
      Option.isSome_iff_exists.1 (by decide)
    have himport : importItems samplePython [] "hub-a" "host-a" [offsiteRow] =
        (messageItem samplePython offsiteRow "hub-a" "host-a").map fun item => [item] := by
      decide +kernel
    rw [hitem, Option.map_some] at himport
    -- the Worker stores it all the same
    have hstored : (messageItem samplePython offsiteRow "hub-a" "host-a").any (fun item =>
        (pushedItems sampleWorker BusLog.empty "hub-a" (importBody sampleWorker "hub-a" [item])
          sampleMoment).any fun x => x.1 == Js.parse sampleWorker.numbers item) = true := by
      decide +kernel
    rw [hitem, Option.any_some, List.any_eq_true] at hstored
    obtain ⟨⟨req, row⟩, hmem, heq⟩ := hstored
    obtain rfl := beq_iff_eq.1 heq
    exact ⟨[offsiteRow], [item], 0, BusLog.empty, sampleMoment, item, row, List.mem_cons_self,
      himport, hitem, hmem⟩
  · exact ⟨plainPost sampleWorker offsiteMessage, "cloud", BusLog.empty, plainIdentity, sampleMoment,
      carries_plainPost offsiteMessage, by decide +kernel⟩

end AgentHub.Network
