import AgentHub.Hub.Equiv.Post
import AgentHub.Sync.Equiv.Entry

/-!
# Entries of posted messages

What the two ways to post write is read back as the message they return (`decode_postFields`), but for
the texts that stand for nothing and, after a single post of a compressed body, for the markers in
the metadata.
-/

namespace AgentHub.Sync

open AgentHub.Json

variable {codec : Codec} {platform : Hub.Platform}

/-! ### Documents that are read back -/

/-- The value is as `serde_json` holds one: what is printed of it is read back. -/
def ReadsBack (codec : Codec) (v : Value) : Prop :=
  readDocument codec.doubles (Hub.jsonText v).toList = some v

theorem readsBack_iff {v : Value} :
    ReadsBack codec v ↔ v.depth ≤ maxDepth ∧ document codec.doubles v = some v := by
  rw [ReadsBack, readDocument_jsonText]
  split_ifs with h
  · simp [h]
  · simp [h]

theorem readsBack_obj {fields : Fields} :
    ReadsBack codec (.obj fields) ↔ Fields.Sorted fields ∧
      ∀ kv ∈ fields, kv.2.depth + 1 ≤ maxDepth ∧ document codec.doubles kv.2 = some kv.2 := by
  rw [readsBack_iff, Value.depth]
  constructor
  · rintro ⟨hdepth, hdoc⟩
    have hsorted : Fields.Sorted fields ∧ sortedFields fields := document_sortedKeys hdoc
    rw [document, Option.map_eq_some_iff] at hdoc
    obtain ⟨fields', hfields, hobj⟩ := hdoc
    have hpairs : Fields.ofPairs fields' = fields := Value.obj.inj hobj
    refine ⟨hsorted.1, ?_⟩
    intro kv hkv
    constructor
    · have hle := (depthFields_le_iff fields (maxDepth - 1)).1 (Nat.le_pred_of_lt hdepth) kv hkv
      exact Nat.succ_le_of_lt (Nat.lt_of_le_of_lt hle (by decide))
    · rw [← hpairs] at hkv
      exact documentFields_idem hfields kv (Fields.mem_of_mem_ofPairs hkv)
  · rintro ⟨hsorted, hfields⟩
    constructor
    · have hle : Value.depthFields fields ≤ maxDepth - 1 := by
        refine (depthFields_le_iff fields _).2 ?_
        intro kv hkv
        exact Nat.le_pred_of_lt (hfields kv hkv).1
      exact Nat.succ_le_of_lt (Nat.lt_of_le_of_lt hle (by decide))
    · rw [document, documentFields_of_fixed fun kv hkv => (hfields kv hkv).2, Option.map_some,
        hsorted.ofPairs_eq]

theorem ReadsBack.insert {fields : Fields} (h : ReadsBack codec (.obj fields)) (key : String)
    {v : Value} (hdepth : v.depth = 0) (hdoc : document codec.doubles v = some v) :
    ReadsBack codec (.obj (fields.insert key v)) := by
  rw [readsBack_obj] at h ⊢
  refine ⟨h.1.insert key v, ?_⟩
  intro kv hkv
  rcases Fields.mem_insert hkv with rfl | hkv
  · rw [hdepth]
    exact ⟨by decide, hdoc⟩
  · exact h.2 kv hkv

theorem ReadsBack.remove {fields : Fields} (h : ReadsBack codec (.obj fields)) (key : String) :
    ReadsBack codec (.obj (fields.remove key)) := by
  rw [readsBack_obj] at h ⊢
  refine ⟨h.1.sublist List.filter_sublist, ?_⟩
  intro kv hkv
  exact h.2 kv (List.mem_of_mem_filter hkv)

theorem readsBack_nil : ReadsBack codec (.obj []) :=
  readsBack_obj.2 ⟨List.Pairwise.nil, nofun⟩

/-- The fields of an object, none of anything else. -/
def entries : Value → Fields
  | .obj m => m
  | _ => []

/-- The schema in force as a field. -/
def noteSchema (schema : Option String) (m : Fields) : Fields :=
  match schema with
  | some schema => m.insert "_schema" (.str schema)
  | none => m

/-- The markers of a compressed body. -/
def markSize (size : Option Nat) (m : Fields) : Fields :=
  match size with
  | some size => Fields.insert (m.insert "_compressed" (.str "lz4")) "_original_size" (.int size)
  | none => m

theorem annotatedMetadata_eq (metadata : Value) (schema : Option String) (size : Option Nat) :
    Hub.annotatedMetadata metadata schema size =
      if schema.isSome || size.isSome || (metadata.field? "_schema").isSome then
        .obj (markSize size (noteSchema schema ((entries metadata).remove "_schema")))
      else metadata := by
  cases metadata <;> cases schema <;> cases size <;> rfl

theorem ReadsBack.entries {metadata : Value} (h : ReadsBack codec metadata) :
    ReadsBack codec (.obj (entries metadata)) := by
  cases metadata with
  | obj m => exact h
  | null | bool b | int n | float x | str s | arr items => exact readsBack_nil

theorem ReadsBack.noteSchema {m : Fields} (h : ReadsBack codec (.obj m)) (schema : Option String) :
    ReadsBack codec (.obj (noteSchema schema m)) := by
  cases schema with
  | none => exact h
  | some schema => exact h.insert "_schema" rfl rfl

theorem ReadsBack.markSize {m : Fields} (h : ReadsBack codec (.obj m)) {size : Option Nat}
    (hsize : ∀ n, size = some n → n < 2 ^ 64) : ReadsBack codec (.obj (markSize size m)) := by
  cases size with
  | none => exact h
  | some n =>
    refine (h.insert "_compressed" rfl rfl).insert "_original_size" rfl ?_
    have hlt := hsize n rfl
    have hint : isMachineInt (n : Int) = true := by
      simp only [isMachineInt, Bool.and_eq_true, decide_eq_true_eq]
      omega
    rw [document, if_pos hint]

/-- **Annotations keep a document readable.** -/
theorem ReadsBack.annotated {metadata : Value} (h : ReadsBack codec metadata)
    (schema : Option String) {size : Option Nat} (hsize : ∀ n, size = some n → n < 2 ^ 64) :
    ReadsBack codec (Hub.annotatedMetadata metadata schema size) := by
  rw [annotatedMetadata_eq]
  split_ifs
  · exact ((h.entries.remove "_schema").noteSchema schema).markSize hsize
  · exact h

/-! ### Entries of posts -/

/-- What every post writes. -/
def fixedSlots (settings : Hub.Settings) (platform : Hub.Platform) (draw : Hub.Draw) (d : Hub.Draft) :
    List (String × Option String) :=
  [("id", some draw.id),
   ("timestamp_utc", some draw.timestampUtc),
   ("protocol_version", some Hub.protocolVersion),
   ("from", some d.fromAgent),
   ("to", some d.toAgent),
   ("topic", some d.topic),
   ("body", some ((Hub.compressedBody platform d.body).getD d.body)),
   ("tags", some (Hub.jsonText (.arr ((Hub.effectiveTags settings.sessionId d.tags).map .str)))),
   ("priority", some d.priority),
   ("request_ack", some (if d.requestAck then "true" else "false")),
   ("reply_to", some (d.replyTo.getD d.fromAgent)),
   ("metadata", some (Hub.jsonText (Hub.storedMetadata platform d)))]

/-- What a post writes, with what it leaves out. -/
def postedSlots (settings : Hub.Settings) (platform : Hub.Platform) (draw : Hub.Draw) (d : Hub.Draft) :
    List (String × Option String) :=
  fixedSlots settings platform draw d ++
  [("thread_id", (d.threadId <|> d.replyTo).filter fun t => !t.isEmpty),
   ("_compressed", (Hub.compressedBody platform d.body).map fun _ => "lz4")]

theorem postedSlots_nodup (settings : Hub.Settings) (platform : Hub.Platform) (draw : Hub.Draw)
    (d : Hub.Draft) : ((postedSlots settings platform draw d).map Prod.fst).Nodup := by
  show ["id", "timestamp_utc", "protocol_version", "from", "to", "topic", "body", "tags",
    "priority", "request_ack", "reply_to", "metadata", "thread_id", "_compressed"].Nodup
  decide

theorem streamFields_eq_presentFields (settings : Hub.Settings) (platform : Hub.Platform)
    (draw : Hub.Draw) (d : Hub.Draft) :
    Hub.streamFields settings platform draw d =
      presentFields (postedSlots settings platform draw d) := by
  have hthread : (if ((d.threadId <|> d.replyTo).getD "").isEmpty then []
      else [("thread_id", (d.threadId <|> d.replyTo).getD "")]) =
      presentFields [("thread_id", (d.threadId <|> d.replyTo).filter fun t => !t.isEmpty)] := by
    cases d.threadId <|> d.replyTo with
    | none => rfl
    | some t => by_cases ht : t = "" <;> simp [presentFields, Option.filter_some, ht]
  have hmark : (if (Hub.compressedBody platform d.body).isSome then [("_compressed", "lz4")]
      else []) =
      presentFields [("_compressed", (Hub.compressedBody platform d.body).map fun _ => "lz4")] := by
    cases Hub.compressedBody platform d.body <;> rfl
  simp only [Hub.streamFields]
  rw [hthread, hmark, postedSlots, presentFields, presentFields, presentFields,
    List.filterMap_append, List.append_assoc, ← List.filterMap_append]
  rfl

/-- A message as its entry is read: texts that stand for nothing are absent. -/
def asRead (m : Hub.Message) : Hub.Message :=
  { m with
    threadId := m.threadId.filter fun t => !t.isEmpty && t ≠ "None"
    priority := if m.priority.isEmpty then "normal" else m.priority
    replyTo := m.replyTo.bind nonEmpty
    clientMsgId := m.clientMsgId.bind nonEmpty
    originHub := m.originHub.bind nonEmpty
    streamId := none }

/-- A message without the fields of cloud sync. -/
def ofHub (m : Hub.Message) : Message where
  toMessage := m
  originSeq := none
  hlc := none
  sensitivity := none

/-- A draft whose metadata is a document of `serde_json`, and whose body is decompressed to itself
and has a length of 64 bits. -/
structure Writable (codec : Codec) (platform : Hub.Platform) (d : Hub.Draft) : Prop where
  metadata : ReadsBack codec d.metadata
  inflates : codec.lz4DecompressBody (platform.lz4CompressBody d.body) = some d.body
  length_lt : Text.len d.body < 2 ^ 64

theorem filter_nonEmpty_thread (o : Option String) :
    (o.filter fun t => !t.isEmpty).filter (fun t => !t.isEmpty && t ≠ "None") =
      o.filter fun t => !t.isEmpty && t ≠ "None" := by
  cases o with
  | none => rfl
  | some t => by_cases ht : t = "" <;> simp [Option.filter_some, ht]

/-- **The entry of a post is read as its message with the stored metadata.** -/
theorem decode_streamFields (settings : Hub.Settings) (p : Hub.PostDraw) {d : Hub.Draft}
    (h : Writable codec platform d) :
    decodeStreamEntry codec (Hub.streamFields settings platform p.draw d) =
      ofHub (asRead (Hub.batchMessage settings platform p d)) := by
  have hnodup := postedSlots_nodup settings platform p.draw d
  rw [streamFields_eq_presentFields]
  have text : ∀ {k : String} {v : Option String},
      ((postedSlots settings platform p.draw d).lookup k).join = v →
        (presentFields (postedSlots settings platform p.draw d)).text k = v.getD "" :=
    presentFields_text hnodup
  have field := presentFields_field hnodup
  -- the body is inflated when it was compressed
  have hbody : entryBody codec (presentFields (postedSlots settings platform p.draw d)) = d.body := by
    have hraw := text (k := "body") (v := some ((Hub.compressedBody platform d.body).getD d.body)) rfl
    have hmark := text (k := "_compressed")
      (v := (Hub.compressedBody platform d.body).map fun _ => "lz4") rfl
    rw [entryBody, hraw, hmark, Hub.compressedBody]
    by_cases hlong : Text.len d.body > Hub.compressThreshold
    · rw [if_pos hlong]
      exact congrArg (·.getD (platform.lz4CompressBody d.body)) h.inflates
    · rw [if_neg hlong]
      rfl
  have hthread : (let v := (presentFields (postedSlots settings platform p.draw d)).text "thread_id"
      if v.isEmpty ∨ v = "None" then none else some v) =
        (d.threadId <|> d.replyTo).filter fun t => !t.isEmpty && t ≠ "None" := by
    rw [text (v := (d.threadId <|> d.replyTo).filter fun t => !t.isEmpty) rfl, readThreadId]
    exact filter_nonEmpty_thread _
  have htags : (((presentFields (postedSlots settings platform p.draw d)).field "tags").map
      jsonTexts).getD [] = Hub.effectiveTags settings.sessionId d.tags := by
    rw [field "tags"]
    exact jsonTexts_jsonText _
  -- annotated or not, the stored metadata reads back
  have hmetadata : entryMetadata codec (presentFields (postedSlots settings platform p.draw d)) =
      Hub.storedMetadata platform d := by
    have hread : ReadsBack codec (Hub.storedMetadata platform d) := by
      refine h.metadata.annotated _ ?_
      intro n hn
      obtain ⟨_, -, rfl⟩ := Option.map_eq_some_iff.1 hn
      exact h.length_lt
    rw [entryMetadata, field "metadata"]
    exact congrArg (·.getD (.obj [])) hread
  have hack : (decide ((presentFields (postedSlots settings platform p.draw d)).text "request_ack" =
      "true") || decide ((presentFields (postedSlots settings platform p.draw d)).text "request_ack" =
        "True")) = d.requestAck := by
    rw [text (v := some (if d.requestAck then "true" else "false")) rfl]
    exact readRequestAck d.requestAck
  -- the fields that no slot holds read as empty
  unfold decodeStreamEntry
  rw [hbody, htags, hmetadata, hack, hthread, text (v := some p.draw.id) rfl,
    text (v := some p.draw.timestampUtc) rfl, text (v := some Hub.protocolVersion) rfl,
    text (v := some d.fromAgent) rfl, text (v := some d.toAgent) rfl, text (v := some d.topic) rfl,
    text (v := some d.priority) rfl, text (v := some (d.replyTo.getD d.fromAgent)) rfl,
    text (k := "client_msg_id") (v := none) rfl, text (k := "origin_hub") (v := none) rfl,
    text (k := "origin_seq") (v := none) rfl, text (k := "hlc") (v := none) rfl,
    text (k := "sensitivity") (v := none) rfl]
  rfl

/-! ### All writers -/

theorem postEntry {c : Hub.PostConfig} {p : Hub.PostDraw} {d : Hub.Draft}
    {posted : Hub.PostedMessage} (h : (Hub.busPostMessageWithSchema c p d).2 = .ok posted) :
    posted.message = Hub.postedMessage c.settings c.platform p d ∧
      (Hub.busPostMessageWithSchema c p d).1.stream =
        [⟨p.streamId, Hub.streamFields c.settings c.platform p.draw d⟩] := by
  cases hxadd : p.xadd with
  | false =>
    rw [Hub.busPostMessageWithSchema, hxadd] at h
    cases h
  | true =>
    cases hfails : Hub.publishFails c p (Hub.postedMessage c.settings c.platform p d) with
    | true =>
      rw [Hub.busPost_stopped c d hxadd hfails] at h
      cases h
    | false =>
      rw [Hub.busPost_through c d hxadd hfails] at h ⊢
      obtain rfl := Except.ok.inj h
      exact ⟨rfl, rfl⟩

theorem batchEntries {c : Hub.PostConfig} {items : List (Hub.PostDraw × Hub.Draft)}
    {posted : List Hub.PostedMessage}
    (h : (Hub.busPostMessagesBatchWithSchema c items).2 = .ok posted) :
    posted.map Hub.PostedMessage.message =
        items.map (fun i => Hub.batchMessage c.settings c.platform i.1 i.2) ∧
      (Hub.busPostMessagesBatchWithSchema c items).1.stream =
        items.map fun i => ⟨i.1.streamId, Hub.streamFields c.settings c.platform i.1.draw i.2⟩ := by
  have hxadd : ∀ i ∈ items, i.1.xadd = true := by
    by_contra hnot
    push Not at hnot
    obtain ⟨i, hi, hfalse⟩ := hnot
    have hany := h
    rw [Hub.busPostMessagesBatchWithSchema,
      if_pos (List.any_eq_true.2 ⟨i, hi, by simpa using hfalse⟩)] at hany
    cases hany
  constructor
  · have hposted := Hub.batch_posted c hxadd
    rw [h] at hposted
    exact Except.ok.inj hposted
  · rw [Hub.batch_effects c hxadd, Hub.leftBehind_part Hub.Effects.stream rfl fun _ _ => rfl,
      List.map_eq_flatMap]
    rfl

/-- **A reader gets what the writer reported**, with the texts that stand for nothing absent, the
metadata of a single post as it is stored, and the origin of an ingested message as it was given.  A
single post reports the metadata it stores, but the caller's where only the compression is marked. -/
theorem decode_written (codec : Codec) (platform : Hub.Platform) :
    (∀ (c : Hub.PostConfig) (p : Hub.PostDraw) (d : Hub.Draft) (posted : Hub.PostedMessage),
      c.platform = platform → Writable codec platform d →
      (Hub.busPostMessageWithSchema c p d).2 = .ok posted →
      (Hub.busPostMessageWithSchema c p d).1.stream.map (decodeStreamEntry codec ·.fields) =
          [ofHub (asRead { posted.message with metadata := Hub.storedMetadata platform d })] ∧
        (¬ Hub.Unannotated platform d → posted.message.metadata = Hub.storedMetadata platform d) ∧
        (Hub.Unannotated platform d → posted.message.metadata = d.metadata)) ∧
    (∀ (c : Hub.PostConfig) (items : List (Hub.PostDraw × Hub.Draft))
      (posted : List Hub.PostedMessage),
      c.platform = platform → (∀ i ∈ items, Writable codec platform i.2) →
      (Hub.busPostMessagesBatchWithSchema c items).2 = .ok posted →
      (Hub.busPostMessagesBatchWithSchema c items).1.stream.map (decodeStreamEntry codec ·.fields) =
        posted.map fun m => ofHub (asRead m.message)) ∧
    (∀ (m : Message) (originHub : String), ReadsBack codec m.metadata →
      decodeStreamEntry codec (syncedFields m originHub) =
        { m with
          toMessage := asRead { m.toMessage with originHub := some originHub }
          hlc := m.hlc.bind nonEmpty }) := by
  refine ⟨?_, ?_, ?_⟩
  · intro c p d posted hplatform hwritable hposted
    subst hplatform
    obtain ⟨hmessage, hstream⟩ := postEntry hposted
    -- the stored metadata are the drafted ones with the annotation
    rw [hstream, hmessage]
    refine ⟨?_, Hub.effectiveMetadata_eq_storedMetadata, Hub.effectiveMetadata_of_unannotated⟩
    rw [List.map_singleton, decode_streamFields c.settings p hwritable]
    rfl
  · intro c items posted hplatform hwritable hposted
    subst hplatform
    obtain ⟨hmessages, hstream⟩ := batchEntries hposted
    have hread : posted.map (fun m => ofHub (asRead m.message)) =
        (posted.map Hub.PostedMessage.message).map fun m => ofHub (asRead m) := by
      rw [List.map_map]
      rfl
    rw [hstream, hread, hmessages, List.map_map, List.map_map]
    refine List.map_congr_left ?_
    intro i hi
    exact decode_streamFields c.settings i.1 (hwritable i hi)
  · intro m originHub hmetadata
    obtain ⟨hdepth, hdoc⟩ := readsBack_iff.1 hmetadata
    rw [decode_syncedFields, if_pos hdepth, hdoc]
    rfl

/-! ### A compressed body -/

def storedCodec : Codec where
  doubles := plainDoubles
  lz4DecompressBody := some

/-- A short post and its entry. -/
theorem decode_written_sample :
    (Hub.busPostMessageWithSchema Hub.samplePostConfig Hub.sampleDraw
      (Hub.sampleDraft "hello")).1.stream.map (decodeStreamEntry storedCodec ·.fields) =
      [ofHub (asRead { Hub.postedMessage Hub.sampleSettings Hub.samplePlatform Hub.sampleDraw
        (Hub.sampleDraft "hello") with
          metadata := Hub.storedMetadata Hub.samplePlatform (Hub.sampleDraft "hello") })] :=
  ((decode_written storedCodec Hub.samplePlatform).1 Hub.samplePostConfig Hub.sampleDraw
    (Hub.sampleDraft "hello") _ rfl ⟨readsBack_nil, rfl, by decide⟩ rfl).1

/-- The message of a single post with a long body has the caller's metadata, its entry the markers
of the compression. -/
theorem decode_long_body :
    let post := Hub.busPostMessageWithSchema Hub.samplePostConfig Hub.sampleDraw
      (Hub.sampleDraft Hub.longBody)
    post.2.toOption.map (fun posted => posted.message.metadata) = some (.obj []) ∧
      post.1.stream.map (fun entry => (decodeStreamEntry storedCodec entry.fields).metadata) =
        [.obj [("_compressed", .str "lz4"), ("_original_size", .int 513)]] ∧
      post.1.stream.map (fun entry => (decodeStreamEntry storedCodec entry.fields).body) =
        [Hub.longBody] := by
  decide +kernel

end AgentHub.Sync
