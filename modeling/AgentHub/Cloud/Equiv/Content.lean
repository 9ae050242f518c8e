import AgentHub.Cloud.Equiv.Pull
import AgentHub.Cloud.Equiv.Push
import AgentHub.Json.Equiv.Sorted
import AgentHub.Sync.Equiv.Entry

/-!
# What replication does to the content of a message

A message passes a wire item, a validator, a row, a page and a stream entry before another hub has
it.  The validator trims every text and reads every number as a double; everything else arrives as
it was.  `replication_content` says for which messages the copy is the same.
-/

namespace AgentHub.Cloud

open AgentHub.Json AgentHub.Outbox AgentHub.Sync BusLog

variable {worker : Worker}

/-! ### The validators -/

/-- An optional text as the validator leaves it. -/
def trimmed (s : Option String) : Option String := s.bind fun s => Sync.nonEmpty (Js.trim s)

theorem nonEmpty_ok {val name s : String} {maxLen : Nat} (h : nonEmpty val name maxLen = .ok s) :
    s = Js.trim val ∧ s ≠ "" := by
  simp only [nonEmpty, check_bind_eq_ok, require_eq_ok] at h
  obtain ⟨hne, -, -, heq⟩ := h
  obtain rfl := Except.ok.inj heq
  exact ⟨rfl, by simpa using hne⟩

theorem validateOptionalString_str {s name : String} {maxLen : Nat} {o : Option String}
    (h : validateOptionalString (some (.str s)) name maxLen = .ok o) :
    o = Sync.nonEmpty (Js.trim s) := by
  unfold validateOptionalString at h
  simp only [Js.given] at h
  unfold Sync.nonEmpty
  split at h
  case isTrue hempty =>
    rw [if_pos hempty]
    exact (Except.ok.inj h).symm
  case isFalse hempty =>
    rw [if_neg hempty]
    simp only [check_bind_eq_ok] at h
    exact (Except.ok.inj h.2.2).symm

theorem trimmed_some (s : String) : trimmed (some s) = Sync.nonEmpty (Js.trim s) := by
  rw [trimmed, Option.bind_some]

theorem validateOptionalString_map {s : Option String} {name : String} {maxLen : Nat}
    {o : Option String} (h : validateOptionalString (s.map Value.str) name maxLen = .ok o) :
    o = trimmed s := by
  cases s with
  | none => exact (Except.ok.inj h).symm
  | some s =>
    rw [trimmed_some]
    exact validateOptionalString_str h

theorem stringItems_str {name : String} {maxLen i : Nat} {texts texts' : List String}
    (h : stringItems name maxLen i (texts.map .str) = .ok texts') : texts' = texts := by
  induction texts generalizing i texts' with
  | nil => exact (Except.ok.inj h).symm
  | cons s texts ih =>
    simp only [List.map_cons, stringItems, bind_eq_ok] at h
    obtain ⟨_, -, _, -, rest, hrest, heq⟩ := h
    rw [← Except.ok.inj heq, ih hrest]

theorem validateTags_str {texts texts' : List String}
    (h : validateTags (some (.arr (texts.map .str))) = .ok texts') : texts' = texts := by
  simp only [validateTags, validateStringArray, Js.given, check_bind_eq_ok] at h
  exact stringItems_str h.2

theorem validatePriority_str {s p : String} (h : validatePriority (.str s) = .ok p) :
    p = s ∧ s ≠ "" := by
  simp only [validatePriority] at h
  split at h
  case isTrue hvalid =>
    refine ⟨(Except.ok.inj h).symm, ?_⟩
    rintro rfl
    exact absurd hvalid (by decide)
  case isFalse => cases h

/-- The fields of a message of a hub behind the validator. -/
theorem validateMessageCore_hub {m : Message} {core : CoreMessageFields}
    (h : validateMessageCore (hubItem worker m) = .ok core) :
    core.sender = Js.trim m.fromAgent ∧ core.recipient = Js.trim m.toAgent ∧
      core.topic = Js.trim m.topic ∧ core.body = Js.trim m.body ∧ core.tags = m.tags ∧
      (core.priority = m.priority ∧ m.priority ≠ "") ∧ core.threadId = trimmed m.threadId ∧
      core.replyTo =
        trimmed (m.replyTo.filter fun reply => !reply.isEmpty && reply ≠ m.fromAgent) ∧
      core.clientMsgId = trimmed m.clientMsgId ∧ core.hlc = trimmed m.hlc ∧
      core.metadata = (Js.given (some (Js.parse worker.numbers m.metadata))).getD (.obj []) := by
  have field : ∀ k, (hubItem worker m).field? k =
      ((pushSlots m).lookup k).join.map (Js.parse worker.numbers) := hubItem_field? m
  have hstr : ∀ s : Option String,
      (s.map Value.str).map (Js.parse worker.numbers) = s.map Value.str := by
    intro s
    cases s <;> rfl
  -- each field of the hub's item, as the Worker's validator reads it
  have hpriority : (hubItem worker m).field? "priority" = some (.str m.priority) := field "priority"
  have hsender : (hubItem worker m).field? "sender" = some (.str m.fromAgent) := field "sender"
  have hrecipient : (hubItem worker m).field? "recipient" = some (.str m.toAgent) :=
    field "recipient"
  have htopic : (hubItem worker m).field? "topic" = some (.str m.topic) := field "topic"
  have hbody : (hubItem worker m).field? "body" = some (.str m.body) := field "body"
  have htags : (hubItem worker m).field? "tags" = some (.arr (m.tags.map .str)) :=
    (field "tags").trans (congrArg some (Js.parse_arr_str worker.numbers m.tags))
  have hthread : (hubItem worker m).field? "thread_id" = m.threadId.map .str :=
    (field "thread_id").trans (hstr m.threadId)
  have hreply : (hubItem worker m).field? "reply_to" =
      (m.replyTo.filter fun reply => !reply.isEmpty && reply ≠ m.fromAgent).map .str :=
    (field "reply_to").trans (hstr _)
  have hclient : (hubItem worker m).field? "client_msg_id" = m.clientMsgId.map .str :=
    hubItem_clientMsgId m
  have hhlc : (hubItem worker m).field? "hlc" = m.hlc.map .str := (field "hlc").trans (hstr m.hlc)
  have hmetadata : (hubItem worker m).field? "metadata" =
      some (Js.parse worker.numbers m.metadata) := field "metadata"
  -- every check passed, so each field is the one its check returned
  simp only [validateMessageCore, bind_eq_ok, hpriority, hsender, hrecipient, htopic, hbody, htags,
    hthread, hreply, hclient, hhlc, hmetadata] at h
  obtain ⟨priority, hpriority, sender, hsender, recipient, hrecipient, topic, htopic, body, hbody,
    tags, htags, thread, hthread, reply, hreply, client, hclient, hlc, hhlc, _, -, _, -, _, -, _, -,
    _, -, hcore⟩ := h
  obtain rfl := Except.ok.inj hcore
  refine ⟨?_, (nonEmpty_ok hrecipient).1, (nonEmpty_ok htopic).1, (nonEmpty_ok hbody).1,
    validateTags_str htags, validatePriority_str hpriority, validateOptionalString_map hthread,
    validateOptionalString_map hreply, validateOptionalString_map hclient,
    validateOptionalString_map hhlc, rfl⟩
  -- an empty sender is left out of the item and read as the empty text
  show sender.getD "" = Js.trim m.fromAgent
  rw [validateOptionalString_str hsender, Sync.nonEmpty]
  split
  case isTrue hempty => exact (String.isEmpty_iff.1 hempty).symm
  case isFalse => rfl

/-! ### Numbers -/

mutual

/-- Every number of a document is the same after the Worker has read and written it. -/
def numbersKept (numbers : Js.Numbers) (d : Doubles) : Value → Bool
  | .int n => document d (Js.ofInt numbers n) = some (.int n)
  | .float x => document d (numbers.ofFloat x) = some (.float x)
  | .arr items => numbersKeptItems numbers d items
  | .obj fields => numbersKeptFields numbers d fields
  | _ => true

def numbersKeptItems (numbers : Js.Numbers) (d : Doubles) : List Value → Bool
  | [] => true
  | v :: vs => numbersKept numbers d v && numbersKeptItems numbers d vs

def numbersKeptFields (numbers : Js.Numbers) (d : Doubles) : List (String × Value) → Bool
  | [] => true
  | (_, v) :: vs => numbersKept numbers d v && numbersKeptFields numbers d vs

end

variable {numbers : Js.Numbers} {d : Doubles}

/-- An object whose keys ascend, read by the Worker and then by a hub, keeps its keys. -/
theorem document_parse_obj {fields : Fields} (h : Fields.Sorted fields) :
    document d (Js.parse numbers (.obj fields)) =
      (documentFields d (Js.parseFields numbers fields)).map .obj := by
  have hkeys := Js.parseFields_keys numbers fields
  have hnodup : (([] ++ Js.parseFields numbers fields : Fields).map Prod.fst).Nodup := by
    rw [List.nil_append, hkeys]
    exact h.keys_nodup
  rw [Js.parse, Js.foldl_setProperty hnodup, List.nil_append, document]
  cases hdoc : documentFields d (Js.parseFields numbers fields) with
  | none => rfl
  | some fields' =>
    have hsorted : Fields.Sorted fields' := by
      have hkeys' := (documentFields_get hdoc).1.trans hkeys
      rw [Fields.Sorted, ← List.pairwise_map (f := Prod.fst), hkeys', List.pairwise_map]
      exact h
    rw [Option.map_some, Option.map_some, hsorted.ofPairs_eq]

mutual

/-- **A document in order arrives as it was exactly if its numbers do.** -/
theorem document_parse_iff {v : Value} (h : v.SortedKeys) :
    document d (Js.parse numbers v) = some v ↔ numbersKept numbers d v = true := by
  cases v with
  | int n => rw [Js.parse, numbersKept, decide_eq_true_eq]
  | float x => rw [Js.parse, numbersKept, decide_eq_true_eq]
  | arr items =>
    rw [Js.parse, document, Option.map_eq_some_iff, numbersKept, ← documentItems_parse_iff h]
    constructor
    · rintro ⟨items', hitems, heq⟩
      cases heq
      exact hitems
    · exact fun hitems => ⟨items, hitems, rfl⟩
  | obj fields =>
    rw [document_parse_obj h.1, Option.map_eq_some_iff, numbersKept,
      ← documentFields_parse_iff h.2]
    constructor
    · rintro ⟨fields', hfields, heq⟩
      cases heq
      exact hfields
    · exact fun hfields => ⟨fields, hfields, rfl⟩
  | null | bool b | str s => exact iff_of_true rfl rfl

theorem documentItems_parse_iff {items : List Value} (h : sortedItems items) :
    documentItems d (Js.parseItems numbers items) = some items ↔
      numbersKeptItems numbers d items = true := by
  cases items with
  | nil => exact iff_of_true rfl rfl
  | cons v items =>
    rw [Js.parseItems, documentItems, numbersKeptItems, Bool.and_eq_true,
      ← document_parse_iff h.1, ← documentItems_parse_iff h.2]
    simp only [Option.bind_eq_bind, Option.bind_eq_some_iff, Option.pure_def, Option.some.injEq,
      List.cons.injEq]
    constructor
    · rintro ⟨w, hw, rest, hrest, rfl, rfl⟩
      exact ⟨hw, hrest⟩
    · rintro ⟨hv, hitems⟩
      exact ⟨v, hv, items, hitems, rfl, rfl⟩

theorem documentFields_parse_iff {fields : Fields} (h : sortedFields fields) :
    documentFields d (Js.parseFields numbers fields) = some fields ↔
      numbersKeptFields numbers d fields = true := by
  cases fields with
  | nil => exact iff_of_true rfl rfl
  | cons first fields =>
    obtain ⟨k, v⟩ := first
    rw [Js.parseFields, documentFields, numbersKeptFields, Bool.and_eq_true,
      ← document_parse_iff h.1, ← documentFields_parse_iff h.2]
    simp only [Option.bind_eq_bind, Option.bind_eq_some_iff, Option.pure_def, Option.some.injEq,
      List.cons.injEq, Prod.mk.injEq, true_and]
    constructor
    · rintro ⟨w, hw, rest, hrest, rfl, rfl⟩
      exact ⟨hw, hrest⟩
    · rintro ⟨hv, hfields⟩
      exact ⟨v, hv, fields, hfields, rfl, rfl⟩

end

/-! ### Optional texts -/

theorem trim_empty : Js.trim "" = "" := by decide

theorem trimmed_eq_some {s : Option String} {t : String} (h : trimmed s = some t) : t ≠ "" := by
  rw [trimmed, Option.bind_eq_some_iff] at h
  obtain ⟨_, -, ht⟩ := h
  exact Sync.nonEmpty_eq_some ht

theorem trimmed_bind_nonEmpty (s : Option String) :
    (trimmed s).bind Sync.nonEmpty = trimmed s := by
  cases h : trimmed s with
  | none => rfl
  | some t => rw [Option.bind_some, Sync.nonEmpty, if_neg (by simpa using trimmed_eq_some h)]

/-- A text that is given arrives as it was exactly if it has no blanks around it. -/
theorem trimmed_eq_self {s : Option String} (h : ∀ t, s = some t → t ≠ "") :
    trimmed s = s ↔ ∀ t, s = some t → Js.trim t = t := by
  cases s with
  | none => simp [trimmed]
  | some t =>
    have hne := h t rfl
    rw [trimmed_some, Sync.nonEmpty]
    constructor
    · intro heq t' ht'
      obtain rfl := Option.some.inj ht'
      split at heq
      case isTrue => cases heq
      case isFalse => exact Option.some.inj heq
    · intro htrim
      rw [htrim t rfl, if_neg (by simpa using hne)]

/-- The same for a thread, which is not to read `None`. -/
theorem trimmed_thread {s : Option String} (h : ∀ t, s = some t → t ≠ "" ∧ t ≠ "None") :
    ((trimmed s).filter fun t => !t.isEmpty && t ≠ "None") = s ↔
      ∀ t, s = some t → Js.trim t = t := by
  have hself := trimmed_eq_self (s := s) fun t ht => (h t ht).1
  rw [← hself]
  constructor
  · intro heq
    cases s with
    | none => rfl
    | some t =>
      rw [Option.filter_eq_some_iff] at heq
      exact heq.1
  · intro heq
    rw [heq]
    cases s with
    | none => rfl
    | some t =>
      rw [Option.filter_some, if_pos]
      simpa using h t rfl

/-! ### The item of a message -/

theorem ofSmallInt_nonneg {n : Int} (h : 0 ≤ n) : 0 ≤ Js.ofSmallInt n := by
  unfold Js.ofSmallInt
  split
  · exact h
  · exact Int.mul_nonneg (Int.sign_nonneg_iff.2 h) (Int.natCast_nonneg _)

/-- What the Worker makes of a message. -/
structure ItemOf (worker : Worker) (m : Message) (now : Int) (uuid : String)
    (item : InsertMessageInput) : Prop where
  id : item.id = if (Js.trim m.id).isEmpty then uuid else Js.trim m.id
  timestampUtc : syncItemTimestamp worker (some (.str m.timestampUtc)) now = .ok item.timestampUtc
  fromAgent : item.fromAgent = Js.trim m.fromAgent
  toAgent : item.toAgent = Js.trim m.toAgent
  topic : item.topic = Js.trim m.topic
  body : item.body = Js.trim m.body
  tags : item.tags = m.tags
  priority : item.priority = m.priority ∧ m.priority ≠ ""
  requestAck : item.requestAck = m.requestAck
  threadId : item.threadId = trimmed m.threadId
  replyTo : item.replyTo =
    trimmed (m.replyTo.filter fun reply => !reply.isEmpty && reply ≠ m.fromAgent)
  clientMsgId : item.clientMsgId = trimmed m.clientMsgId
  hlc : item.hlc = trimmed m.hlc
  metadata : item.metadata =
    (Js.given (some (Js.parse worker.numbers m.metadata))).getD (.obj [])
  originSeq : item.originSeq = m.originSeq.map fun n => .int (Js.ofSmallInt n.toNat)
  sensitivity : item.sensitivity = none

theorem syncItemId_str (s uuid : String) :
    syncItemId (some (.str s)) uuid =
      .ok (if (Js.trim s).isEmpty then uuid else Js.trim s) := by
  by_cases h : s = ""
  · subst h
    rw [trim_empty]
    rfl
  · have htruthy : Js.truthy (some (.str s)) = true := by
      unfold Js.truthy
      split <;> simp_all
    simp [syncItemId, htruthy]

theorem coerceOptionalInt_u64 (n : Option UInt64) (name : String) :
    coerceOptionalInt ((n.map fun seq => Value.int seq.toNat).map (Js.parse worker.numbers)) name =
      .ok (n.map fun n => .int (Js.ofSmallInt n.toNat)) := by
  cases n with
  | none => rfl
  | some n =>
    have hlt : (n.toNat : Int).natAbs < 10 ^ 21 := by
      have h := n.toNat_lt
      omega
    have hparse : Js.parse worker.numbers (.int n.toNat) = .int (Js.ofSmallInt n.toNat) := by
      rw [Js.parse, Js.ofInt, if_pos hlt]
    have hnonneg := ofSmallInt_nonneg (Int.natCast_nonneg n.toNat)
    have hsign : Js.isNegative (.int (Js.ofSmallInt n.toNat)) = false := by
      rw [Js.isNegative, decide_eq_false_iff_not]
      omega
    simp only [Option.map_some, hparse, coerceOptionalInt, Js.given, Js.isInteger, hsign]
    rfl

theorem itemOf_of_built {m : Message} {now : Int} {uuid : String} {item : InsertMessageInput}
    (h : buildSyncPushItem worker (hubItem worker m) now uuid = .ok item) :
    ItemOf worker m now uuid item := by
  obtain ⟨core, id, ts, version, seq, host, hub, hcore, -, hid, -, -, hts, -, hseq, -, -, rfl⟩ :=
    buildSyncPushItem_ok h
  obtain ⟨hsender, hrecipient, htopic, hbody, htags, hpriority, hthread, hreply, hclient, hhlc,
    hmetadata⟩ := validateMessageCore_hub hcore
  have htime : (hubItem worker m).field? "timestamp_utc" = some (.str m.timestampUtc) :=
    hubItem_field? m "timestamp_utc"
  have hack : (hubItem worker m).field? "request_ack" = some (.bool m.requestAck) :=
    hubItem_field? m "request_ack"
  have horigin : (hubItem worker m).field? "origin_seq" =
      (m.originSeq.map fun seq => Value.int seq.toNat).map (Js.parse worker.numbers) :=
    hubItem_field? m "origin_seq"
  rw [hubItem_id, syncItemId_str] at hid
  rw [horigin, coerceOptionalInt_u64] at hseq
  rw [htime] at hts
  refine ⟨(Except.ok.inj hid).symm, hts, hsender, hrecipient, htopic, hbody, htags, hpriority, ?_,
    hthread, hreply, hclient, hhlc, hmetadata, (Except.ok.inj hseq).symm, rfl⟩
  show Js.truthy ((hubItem worker m).field? "request_ack") = m.requestAck
  rw [hack]
  cases m.requestAck <;> rfl

/-! ### The copy of a message -/

/-- The metadata a hub reads in a row, with what it stores and reads again. -/
theorem copy_metadata {v r : Value} (hsorted : v.SortedKeys) (hdepth : v.depth ≤ maxDepth)
    (hr : (document d ((Js.given (some (Js.parse numbers v))).getD (.obj []))).getD .null = r) :
    (if r.depth ≤ maxDepth then document d r else none).getD (.obj []) = v ↔
      v ≠ .null ∧ numbersKept numbers d v = true := by
  have hempty : Js.parse numbers (.obj []) = .obj [] := rfl
  rw [← document_parse_iff hsorted]
  by_cases hnull : Js.parse numbers v = .null
  · -- no value at all is stored as an empty object
    have hr' : r = .obj [] := by
      rw [← hr, hnull]
      rfl
    have hstored : (if r.depth ≤ maxDepth then document d r else none).getD (.obj []) = .obj [] := by
      rw [hr']
      rfl
    rw [hstored, hnull]
    refine iff_of_false ?_ ?_
    · rintro rfl
      rw [hempty] at hnull
      cases hnull
    · rintro ⟨hne, hdoc⟩
      exact hne (Option.some.inj hdoc).symm
  · -- a value is there: the Worker prints what it parsed, and the site reads that
    have hgiven : Js.given (some (Js.parse numbers v)) = some (Js.parse numbers v) := by
      unfold Js.given
      split
      · rename_i h
        exact absurd (Option.some.inj h) hnull
      · rfl
    rw [hgiven, Option.getD_some] at hr
    have hne : v ≠ .null := by
      rintro rfl
      exact hnull rfl
    cases hdoc : document d (Js.parse numbers v) with
    | none =>
      rw [hdoc] at hr
      subst hr
      refine iff_of_false ?_ (by simp)
      exact fun heq => hne heq.symm
    | some w =>
      rw [hdoc, Option.getD_some] at hr
      subst hr
      rw [document_idem hdoc, Option.some.injEq]
      -- a document deeper than the decoder allows is read as an empty object
      by_cases hdeep : w.depth ≤ maxDepth
      · rw [if_pos hdeep, Option.getD_some]
        exact ⟨fun heq => ⟨hne, heq⟩, fun h => h.2⟩
      · rw [if_neg hdeep]
        refine iff_of_false ?_ ?_
        · rintro rfl
          obtain rfl := Option.some.inj (hdoc.symm.trans (congrArg (document d) hempty))
          exact hdeep hdepth
        · rintro ⟨-, rfl⟩
          exact hdeep hdepth

/-- The sequence number a hub reads in the row of an item. -/
theorem copy_originSeq {row : Row} {n : Option UInt64} {seq : Option Nat}
    (hrow : row.originSeq = n.map fun n => .int (Js.ofSmallInt n.toNat))
    (hread : row.readOriginSeq d = some seq) :
    seq.map UInt64.ofNat = n ↔ ∀ k, n = some k → Js.ofSmallInt k.toNat = k.toNat := by
  cases n with
  | none =>
    rw [Row.readOriginSeq, hrow] at hread
    obtain rfl : none = seq := Option.some.inj hread
    simp
  -- the number is written through a double and read back as a machine integer
  | some k =>
    have hnonneg := ofSmallInt_nonneg (Int.natCast_nonneg k.toNat)
    rw [Row.readOriginSeq, hrow] at hread
    change Sync.readOption Value.asU64
      (some (if isMachineInt (Js.ofSmallInt k.toNat) then Value.int (Js.ofSmallInt k.toNat)
        else .float (d.readInt (Js.ofSmallInt k.toNat)))) = some seq at hread
    simp only [Option.some.injEq, forall_eq']
    generalize Js.ofSmallInt k.toNat = x at hnonneg hread ⊢
    split at hread
    case isFalse => cases hread
    case isTrue =>
      simp only [Sync.readOption, Value.asU64] at hread
      split at hread
      case isFalse => cases hread
      case isTrue hx =>
        obtain rfl := Option.some.inj hread
        have hlt : x.toNat < 2 ^ 64 := by omega
        rw [Option.map_some, Option.some.injEq, ← UInt64.toNat_inj, UInt64.toNat_ofNat_of_lt' hlt]
        omega

/-- The copy of a message at another hub has its content.  A reply address that only repeats the
sender need not be there, and the time is the one the text names, to the millisecond. -/
structure SameContent (dates : Dates) (m copy : Message) : Prop where
  id : copy.id = m.id
  timestampUtc : m.timestampUtc ≠ "" ∧ ∃ ms, dates.parseTimestampUtcMs m.timestampUtc = some ms ∧
    copy.timestampUtc = formatTimestampUtc ms
  fromAgent : copy.fromAgent = m.fromAgent
  toAgent : copy.toAgent = m.toAgent
  topic : copy.topic = m.topic
  body : copy.body = m.body
  tags : copy.tags = m.tags
  priority : copy.priority = m.priority
  requestAck : copy.requestAck = m.requestAck
  threadId : copy.threadId = m.threadId
  replyTo : m.replyTo = none ∨ m.replyTo = some m.fromAgent ∨ copy.replyTo = m.replyTo
  metadata : copy.metadata = m.metadata
  clientMsgId : copy.clientMsgId = m.clientMsgId
  originSeq : copy.originSeq = m.originSeq
  hlc : copy.hlc = m.hlc

/-- A message the validator changes nothing of: it has an id, a time and metadata, no text of it has
blanks around it, and its numbers are the same as doubles. -/
structure Kept (numbers : Js.Numbers) (d : Doubles) (m : Message) : Prop where
  id : m.id ≠ "" ∧ Js.trim m.id = m.id
  timestampUtc : m.timestampUtc ≠ ""
  fromAgent : Js.trim m.fromAgent = m.fromAgent
  toAgent : Js.trim m.toAgent = m.toAgent
  topic : Js.trim m.topic = m.topic
  body : Js.trim m.body = m.body
  threadId : ∀ t, m.threadId = some t → Js.trim t = t
  replyTo : ∀ r, m.replyTo = some r → r ≠ m.fromAgent → Js.trim r = r
  metadata : m.metadata ≠ .null ∧ numbersKept numbers d m.metadata = true
  clientMsgId : ∀ c, m.clientMsgId = some c → Js.trim c = c
  originSeq : ∀ n, m.originSeq = some n → Js.ofSmallInt n.toNat = n.toNat
  hlc : ∀ h, m.hlc = some h → Js.trim h = h

theorem itemId_eq_self {s uuid : String} (huuid : uuid ≠ "" ∧ Js.trim uuid = uuid) :
    (if (Js.trim s).isEmpty then uuid else Js.trim s) = s ↔ s ≠ "" ∧ Js.trim s = s := by
  constructor
  · intro h
    split at h
    case isTrue hempty =>
      -- a new id is not made of blanks
      subst h
      rw [huuid.2, String.isEmpty_iff] at hempty
      exact absurd hempty huuid.1
    case isFalse hempty =>
      rw [h, String.isEmpty_iff] at hempty
      exact ⟨hempty, h⟩
  · rintro ⟨hne, htrim⟩
    rw [htrim, if_neg (by simpa using hne)]

/-- A time that is given is kept to the millisecond. -/
theorem syncItemTimestamp_str {ts t : String} {now : Int} (hne : ts ≠ "")
    (h : syncItemTimestamp worker (some (.str ts)) now = .ok t) :
    ∃ ms, worker.dates.parseTimestampUtcMs ts = some ms ∧ t = formatTimestampUtc ms := by
  have htruthy : Js.truthy (some (.str ts)) = true := by
    unfold Js.truthy
    split <;> simp_all
  rw [syncItemTimestamp, htruthy] at h
  simp only [Bool.not_true, Bool.false_eq_true, if_false, validateTimestampUtc] at h
  split at h
  case h_1 => cases h
  case h_2 ms hms =>
    rw [check_bind_eq_ok] at h
    exact ⟨ms, hms, (Except.ok.inj h.2).symm⟩

theorem copy_replyTo {reply : Option String} {sender : String}
    (h : ∀ r, reply = some r → r ≠ "") :
    (reply = none ∨ reply = some sender ∨
      trimmed (reply.filter fun r => !r.isEmpty && r ≠ sender) = reply) ↔
      ∀ r, reply = some r → r ≠ sender → Js.trim r = r := by
  cases reply with
  | none => simp
  | some r =>
    have hne := h r rfl
    simp only [reduceCtorEq, false_or, Option.some.injEq, forall_eq']
    by_cases hr : r = sender
    · simp [hr]
    · have hfilter : (some r).filter (fun r => !r.isEmpty && r ≠ sender) = some r := by
        rw [Option.filter_some, if_pos]
        simpa using ⟨hne, hr⟩
      rw [hfilter, trimmed_eq_self h]
      simp [hr]

/-- **The copy of a message has its content exactly if the validator changes nothing of it.** -/
theorem sameContent_iff {codec : Codec} {m : Message} (hm : Decoded m) {now : Int} {uuid : String}
    (huuid : uuid ≠ "" ∧ Js.trim uuid = uuid) {item : InsertMessageInput}
    (hitem : ItemOf worker m now uuid item) {row : Row}
    (hrow : row.toMessageFields = item.toMessageFields) {pulled : Message}
    (hread : row.read codec.doubles = some pulled) (originHub : String) :
    SameContent worker.dates m (decodeStreamEntry codec (syncedFields pulled originHub)) ↔
      Kept worker.numbers codec.doubles m := by
  rw [Row.read, Option.map_eq_some_iff] at hread
  obtain ⟨seq, hseq, rfl⟩ := hread
  -- each clause of Kept is what its field needs to survive the two trims
  have hpriority : (if item.priority.isEmpty then "normal" else item.priority) = m.priority := by
    rw [hitem.priority.1, if_neg (by simpa using hitem.priority.2)]
  have hid := itemId_eq_self (s := m.id) huuid
  have hthread := trimmed_thread hm.threadId
  have hreply := @copy_replyTo _ m.fromAgent hm.replyTo
  have hclient := trimmed_eq_self hm.clientMsgId
  have hhlc := trimmed_eq_self hm.hlc
  have hmetadata := @copy_metadata worker.numbers codec.doubles _ _ hm.metadata hm.depth rfl
  have horiginSeq := copy_originSeq (n := m.originSeq)
    ((congrArg MessageFields.originSeq hrow).trans hitem.originSeq) hseq
  rw [decode_syncedFields]
  simp only [Row.message, hrow]
  rw [hitem.metadata]
  constructor
  · -- the copy is the message: each field gives its clause
    intro h
    refine ⟨hid.1 (hitem.id.symm.trans h.id), h.timestampUtc.1, hitem.fromAgent.symm.trans h.fromAgent,
      hitem.toAgent.symm.trans h.toAgent, hitem.topic.symm.trans h.topic,
      hitem.body.symm.trans h.body, hthread.1 ?_, hreply.1 ?_, hmetadata.1 h.metadata,
      hclient.1 ?_, horiginSeq.1 h.originSeq, hhlc.1 ?_⟩
    · rw [← hitem.threadId]
      exact h.threadId
    · rw [← trimmed_bind_nonEmpty, ← hitem.replyTo]
      exact h.replyTo
    · rw [← trimmed_bind_nonEmpty, ← hitem.clientMsgId]
      exact h.clientMsgId
    · rw [← trimmed_bind_nonEmpty, ← hitem.hlc]
      exact h.hlc
  · intro h
    refine ⟨hitem.id.trans (hid.2 h.id), ⟨h.timestampUtc, ?_⟩, hitem.fromAgent.trans h.fromAgent,
      hitem.toAgent.trans h.toAgent, hitem.topic.trans h.topic, hitem.body.trans h.body, hitem.tags,
      hpriority, hitem.requestAck, ?_, ?_, hmetadata.2 h.metadata, ?_, horiginSeq.2 h.originSeq, ?_⟩
    · exact syncItemTimestamp_str h.timestampUtc hitem.timestampUtc
    · show (item.threadId.filter _) = _
      rw [hitem.threadId]
      exact hthread.2 h.threadId
    · show _ ∨ _ ∨ item.replyTo.bind Sync.nonEmpty = _
      rw [hitem.replyTo, trimmed_bind_nonEmpty]
      exact hreply.2 h.replyTo
    · show item.clientMsgId.bind Sync.nonEmpty = _
      rw [hitem.clientMsgId, trimmed_bind_nonEmpty]
      exact hclient.2 h.clientMsgId
    · show item.hlc.bind Sync.nonEmpty = _
      rw [hitem.hlc, trimmed_bind_nonEmpty]
      exact hhlc.2 h.hlc

end AgentHub.Cloud
