import AgentHub.Hub.Equiv.Compare
import AgentHub.Json.Equiv.Document
import AgentHub.Json.Equiv.Sorted
import AgentHub.Sync.Message

/-!
# Entries of ingested messages

The fields of a synced entry are read back as the message they were written from
(`decode_syncedFields`), but for the texts that stand for nothing: an empty one, and the thread
`None`.  In particular the origin stays with the entry, which is what keeps a message from being
sent back (`decode_originHub`).
-/

namespace AgentHub.Sync

open AgentHub.Json

/-! ### Fields of an entry -/

theorem lookup_reverse {fields : EntryFields} (h : (fields.map Prod.fst).Nodup) (k : String) :
    fields.reverse.lookup k = fields.lookup k := by
  induction fields with
  | nil => rfl
  | cons kv fields ih =>
    obtain ⟨k', v⟩ := kv
    simp only [List.map_cons, List.nodup_cons] at h
    rw [List.reverse_cons, List.lookup_append, ih h.2]
    by_cases hk : k = k'
    · subst hk
      simp [lookup_eq_none_of_notMem h.1]
    · have hne : (k == k') = false := by simpa using hk
      simp [List.lookup_cons, List.lookup_nil, hne]

/-- What `xadd_synced` writes, with what it leaves out. -/
def syncedSlots (m : Message) (originHub : String) : List (String × Option String) :=
  [("id", some m.id),
   ("timestamp_utc", some m.timestampUtc),
   ("protocol_version", some m.protocolVersion),
   ("from", some m.fromAgent),
   ("to", some m.toAgent),
   ("topic", some m.topic),
   ("body", some m.body),
   ("tags", some (Hub.jsonText (.arr (m.tags.map .str)))),
   ("priority", some m.priority),
   ("request_ack", some (if m.requestAck then "true" else "false")),
   ("reply_to", some (m.replyTo.getD "")),
   ("metadata", some (Hub.jsonText m.metadata)),
   ("origin_hub", some originHub),
   ("thread_id", m.threadId),
   ("client_msg_id", m.clientMsgId),
   ("origin_seq", m.originSeq.map fun seq => toString seq.toNat),
   ("hlc", m.hlc),
   ("sensitivity", m.sensitivity.map Sensitivity.asStr)]

/-- The fields of an entry, of slots whose absent ones are left out. -/
def presentFields (slots : List (String × Option String)) : EntryFields :=
  slots.filterMap fun kv => kv.2.map fun v => (kv.1, v)

theorem presentFields_field {slots : List (String × Option String)}
    (hnodup : (slots.map Prod.fst).Nodup) (k : String) :
    (presentFields slots).field k = (slots.lookup k).join := by
  have hkeys : ((presentFields slots).map Prod.fst).Nodup := present_keys_nodup hnodup
  rw [EntryFields.field, lookup_reverse hkeys, presentFields, lookup_present hnodup]

theorem presentFields_text {slots : List (String × Option String)}
    (hnodup : (slots.map Prod.fst).Nodup) {k : String} {v : Option String}
    (h : (slots.lookup k).join = v) : (presentFields slots).text k = v.getD "" := by
  rw [EntryFields.text, presentFields_field hnodup, h]

theorem syncedSlots_nodup (m : Message) (originHub : String) :
    ((syncedSlots m originHub).map Prod.fst).Nodup := by
  show ["id", "timestamp_utc", "protocol_version", "from", "to", "topic", "body", "tags",
    "priority", "request_ack", "reply_to", "metadata", "origin_hub", "thread_id", "client_msg_id",
    "origin_seq", "hlc", "sensitivity"].Nodup
  decide

/-- A field of a synced entry. -/
theorem syncedFields_field (m : Message) (originHub k : String) :
    (syncedFields m originHub).field k = ((syncedSlots m originHub).lookup k).join :=
  presentFields_field (syncedSlots_nodup m originHub) k

theorem syncedFields_text {m : Message} {originHub k : String} {v : Option String}
    (h : ((syncedSlots m originHub).lookup k).join = v) :
    (syncedFields m originHub).text k = v.getD "" :=
  presentFields_text (syncedSlots_nodup m originHub) h

/-- **The entry of an ingested message keeps the origin.** -/
theorem decode_originHub (codec : Codec) (m : Message) {originHub : String} (h : originHub ≠ "") :
    (decodeStreamEntry codec (syncedFields m originHub)).originHub = some originHub := by
  have htext : (syncedFields m originHub).text "origin_hub" = originHub :=
    syncedFields_text (v := some originHub) rfl
  show nonEmpty ((syncedFields m originHub).text "origin_hub") = _
  rw [htext, nonEmpty, if_neg (by simpa using h)]

/-! ### What an entry can be read as -/

theorem nonEmpty_eq_some {s t : String} (h : nonEmpty s = some t) : t ≠ "" := by
  unfold nonEmpty at h
  split at h
  case isTrue => cases h
  case isFalse hs =>
    obtain rfl := Option.some.inj h
    simpa using hs

/-- What holds of every message of a stream, whatever the fields of its entry are. -/
structure Decoded (m : Message) : Prop where
  threadId : ∀ t, m.threadId = some t → t ≠ "" ∧ t ≠ "None"
  replyTo : ∀ r, m.replyTo = some r → r ≠ ""
  clientMsgId : ∀ c, m.clientMsgId = some c → c ≠ ""
  hlc : ∀ h, m.hlc = some h → h ≠ ""
  metadata : m.metadata.SortedKeys
  depth : m.metadata.depth ≤ maxDepth

theorem entryMetadata_spec (codec : Codec) (fields : EntryFields) :
    (entryMetadata codec fields).SortedKeys ∧ (entryMetadata codec fields).depth ≤ maxDepth := by
  have hempty : (Value.obj []).SortedKeys ∧ (Value.obj []).depth ≤ maxDepth :=
    ⟨⟨List.Pairwise.nil, trivial⟩, by decide⟩
  unfold entryMetadata
  cases fields.field "metadata" with
  | none => exact hempty
  | some raw =>
    show ((readDocument codec.doubles raw.toList).getD (.obj [])).SortedKeys ∧
      ((readDocument codec.doubles raw.toList).getD (.obj [])).depth ≤ maxDepth
    cases hread : readDocument codec.doubles raw.toList with
    | none => exact hempty
    | some w =>
      simp only [readDocument, Option.bind_eq_some_iff] at hread
      obtain ⟨v, hv, hw⟩ := hread
      cases hparse : fromStr raw.toList with
      | error e =>
        rw [hparse] at hv
        cases hv
      | ok u =>
        rw [hparse] at hv
        obtain rfl : u = v := Option.some.inj hv
        exact ⟨document_sortedKeys hw, (document_depth hw).trans (fromStr_depth hparse)⟩

theorem decoded_entry (codec : Codec) (entry : Entry) : Decoded (entry.message codec) where
  threadId t ht := by
    change (if _ then none else some _) = some t at ht
    split at ht
    case isTrue => cases ht
    case isFalse h =>
      obtain rfl := Option.some.inj ht
      simpa using h
  replyTo _ h := nonEmpty_eq_some h
  clientMsgId _ h := nonEmpty_eq_some h
  hlc _ h := nonEmpty_eq_some h
  metadata := (entryMetadata_spec codec entry.fields).1
  depth := (entryMetadata_spec codec entry.fields).2

/-! ### Reading an entry back -/

theorem parseU64_of_digits {s : String} {n : Nat} (h : s.toList = Nat.toDigits 10 n)
    (hn : n < 2 ^ 64) : parseU64 s = some (UInt64.ofNat n) := by
  have hdigits := isDigit_toDigits n
  have hvalue : Nat.ofDigitChars 10 (Nat.toDigits 10 n) 0 = n :=
    Nat.ofDigitChars_toDigits (by decide) (by decide)
  obtain ⟨c, cs, hcs⟩ := List.exists_cons_of_ne_nil (Nat.toDigits_ne_nil (n := n) (b := 10))
  rw [hcs] at h hdigits hvalue
  -- the first digit is no sign
  have hc : c ≠ '+' := by
    rintro rfl
    exact absurd (hdigits '+' List.mem_cons_self) (by decide)
  have hall : (c :: cs).all Char.isDigit = true := List.all_eq_true.2 hdigits
  unfold parseU64
  rw [h]
  split <;> simp_all

theorem parseU64_toString (n : UInt64) : parseU64 (toString n.toNat) = some n := by
  have hchars : (toString n.toNat).toList = Nat.toDigits 10 n.toNat := String.toList_ofList
  rw [parseU64_of_digits hchars n.toNat_lt, UInt64.ofNat_toNat]

theorem jsonTexts_jsonText (texts : List String) :
    jsonTexts (Hub.jsonText (.arr (texts.map .str))) = texts := by
  have hread := fromStr_print (.arr (texts.map .str)) ((depth_texts texts).trans (by decide))
  rw [jsonTexts, Hub.jsonText, String.toList_ofList, hread]
  show ((texts.map Value.str).mapM Value.asStr).getD [] = texts
  rw [mapM_asStr]
  rfl

/-- The document of a text that was written: what is nested too deep is not read. -/
theorem readDocument_jsonText (d : Doubles) (v : Value) :
    readDocument d (Hub.jsonText v).toList = if v.depth ≤ maxDepth then document d v else none := by
  rw [readDocument, Hub.jsonText, String.toList_ofList]
  split
  case isTrue h =>
    rw [fromStr_print v h]
    rfl
  case isFalse h =>
    rw [fromStr_print_of_lt v (Nat.lt_of_not_le h)]
    rfl

theorem nonEmpty_getD (o : Option String) : nonEmpty (o.getD "") = o.bind nonEmpty := by
  cases o <;> rfl

/-- An empty thread and the thread `None` are read as none. -/
theorem readThreadId (o : Option String) :
    (let v := o.getD ""
     if v.isEmpty ∨ v = "None" then none else some v) =
      o.filter fun t => !t.isEmpty && t ≠ "None" := by
  cases o with
  | none => rfl
  | some t =>
    by_cases h : t.isEmpty ∨ t = "None"
    · have hfilter : (some t).filter (fun t => !t.isEmpty && t ≠ "None") = none := by
        rw [Option.filter_some, if_neg]
        rcases h with h | h <;> simp [h]
      rw [hfilter]
      exact if_pos h
    · have hfilter : (some t).filter (fun t => !t.isEmpty && t ≠ "None") = some t := by
        rw [Option.filter_some, if_pos]
        simpa using h
      rw [hfilter]
      exact if_neg h

theorem readRequestAck (b : Bool) :
    (decide ((if b then "true" else "false") = "true") ||
      decide ((if b then "true" else "false") = "True")) = b := by
  cases b <;> decide

/-- **The fields of a synced entry are read back.** -/
theorem decode_syncedFields (codec : Codec) (m : Message) (originHub : String) :
    decodeStreamEntry codec (syncedFields m originHub) =
      { m with
        threadId := m.threadId.filter fun t => !t.isEmpty && t ≠ "None"
        priority := if m.priority.isEmpty then "normal" else m.priority
        replyTo := m.replyTo.bind nonEmpty
        metadata := (if m.metadata.depth ≤ maxDepth then document codec.doubles m.metadata
          else none).getD (.obj [])
        streamId := none
        clientMsgId := m.clientMsgId.bind nonEmpty
        originHub := nonEmpty originHub
        hlc := m.hlc.bind nonEmpty } := by
  have text : ∀ {k : String} {v : Option String},
      ((syncedSlots m originHub).lookup k).join = v →
        (syncedFields m originHub).text k = v.getD "" := syncedFields_text
  have field := syncedFields_field m originHub
  -- the synced copy is never compressed, whatever its length
  have hbody : entryBody codec (syncedFields m originHub) = m.body := by
    have hraw : (syncedFields m originHub).text "body" = m.body := text (v := some m.body) rfl
    have hplain : (syncedFields m originHub).text "_compressed" = "" := text (v := none) rfl
    rw [entryBody, hraw, hplain]
    rfl
  have hthread : (let v := (syncedFields m originHub).text "thread_id"
      if v.isEmpty ∨ v = "None" then none else some v) =
        m.threadId.filter fun t => !t.isEmpty && t ≠ "None" := by
    rw [text (v := m.threadId) rfl]
    exact readThreadId m.threadId
  have htags : (((syncedFields m originHub).field "tags").map jsonTexts).getD [] = m.tags := by
    rw [field "tags"]
    exact jsonTexts_jsonText m.tags
  have hmetadata : entryMetadata codec (syncedFields m originHub) =
      (if m.metadata.depth ≤ maxDepth then document codec.doubles m.metadata
        -- each remaining field by its own read-back
        else none).getD (.obj []) := by
    rw [entryMetadata, field "metadata"]
    show (readDocument codec.doubles (Hub.jsonText m.metadata).toList).getD (.obj []) = _
    rw [readDocument_jsonText]
  have hseq : parseU64 ((syncedFields m originHub).text "origin_seq") = m.originSeq := by
    rw [text (v := m.originSeq.map fun seq => toString seq.toNat) rfl]
    cases m.originSeq with
    | none => decide
    | some n => exact parseU64_toString n
  have hack : (decide ((syncedFields m originHub).text "request_ack" = "true") ||
      decide ((syncedFields m originHub).text "request_ack" = "True")) = m.requestAck := by
    rw [text (v := some (if m.requestAck then "true" else "false")) rfl]
    exact readRequestAck m.requestAck
  have hsensitivity : Sensitivity.fromStored ((syncedFields m originHub).text "sensitivity") =
      m.sensitivity := by
    rw [text (v := m.sensitivity.map Sensitivity.asStr) rfl]
    cases m.sensitivity with
    | none => rfl
    | some s => cases s <;> decide
  unfold decodeStreamEntry
  rw [hbody, htags, hmetadata, hseq, hack, hsensitivity, hthread, text (v := some m.id) rfl,
    text (v := some m.timestampUtc) rfl, text (v := some m.protocolVersion) rfl,
    text (v := some m.fromAgent) rfl, text (v := some m.toAgent) rfl, text (v := some m.topic) rfl,
    text (v := some m.priority) rfl, text (v := some (m.replyTo.getD "")) rfl,
    text (v := m.clientMsgId) rfl, text (v := some originHub) rfl, text (v := m.hlc) rfl]
  simp only [Option.getD_some, nonEmpty_getD]

end AgentHub.Sync
