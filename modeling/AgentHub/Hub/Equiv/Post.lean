import AgentHub.Hub.Equiv.Claims
import AgentHub.Hub.Post

/-!
# Single and batch posts

`leftBehind` is what posts add to the stores, as a function of the messages they return and of what
ends a post after its `PUBLISH`.  Posts one by one and posts in a batch are two instances of it
(`postEach_effects`, `batch_effects`).  Their messages differ in the metadata, and in it only where a
body is compressed and no schema is in force (`postedMessage_eq_batchMessage`).
-/

namespace AgentHub.Hub

open AgentHub.Json

/-! ### Messages -/

/-- The body is compressed, no schema is in force and the caller wrote none. -/
def Unannotated (platform : Platform) (d : Draft) : Prop :=
  (compressedBody platform d.body).isSome ∧ inferredSchema d.schema d.topic = none ∧
    d.metadata.field? "_schema" = none

instance (platform : Platform) (d : Draft) : Decidable (Unannotated platform d) :=
  inferInstanceAs (Decidable (_ ∧ _ ∧ _))

/-- The metadata a post stores. -/
def storedMetadata (platform : Platform) (d : Draft) : Value :=
  annotatedMetadata d.metadata (inferredSchema d.schema d.topic)
    ((compressedBody platform d.body).map fun _ => Text.len d.body)

theorem effectiveMetadata_eq_storedMetadata {platform : Platform} {d : Draft}
    (h : ¬ Unannotated platform d) :
    effectiveMetadata platform d = storedMetadata platform d := by
  rw [effectiveMetadata]
  by_cases hschema : (inferredSchema d.schema d.topic).isSome || (d.metadata.field? "_schema").isSome
  · rw [if_pos hschema, storedMetadata]
  · rw [if_neg hschema]
    simp only [Bool.or_eq_true, not_or, Option.not_isSome_iff_eq_none] at hschema
    have hplain : compressedBody platform d.body = none := by
      by_contra hbody
      exact h ⟨Option.isSome_iff_ne_none.2 hbody, hschema.1, hschema.2⟩
    simp [storedMetadata, annotatedMetadata, hplain, hschema.1, hschema.2]

theorem effectiveMetadata_of_unannotated {platform : Platform} {d : Draft}
    (h : Unannotated platform d) : effectiveMetadata platform d = d.metadata := by
  obtain ⟨-, hschema, hmetadata⟩ := h
  simp [effectiveMetadata, hschema, hmetadata]

/-- The two paths build one message, apart from its metadata. -/
theorem postedMessage_eq (settings : Settings) (platform : Platform) (p : PostDraw) (d : Draft) :
    postedMessage settings platform p d =
      { batchMessage settings platform p d with metadata := effectiveMetadata platform d } := rfl

theorem postedMessage_eq_batchMessage {settings : Settings} {platform : Platform} {p : PostDraw}
    {d : Draft} (h : ¬ Unannotated platform d) :
    postedMessage settings platform p d = batchMessage settings platform p d := by
  rw [postedMessage_eq, effectiveMetadata_eq_storedMetadata h]
  rfl

/-! ### Effects -/

namespace Effects

@[simp] theorem stream_append (a b : Effects) : (a ++ b).stream = a.stream ++ b.stream := rfl
@[simp] theorem enqueued_append (a b : Effects) : (a ++ b).enqueued = a.enqueued ++ b.enqueued := rfl
@[simp] theorem published_append (a b : Effects) :
    (a ++ b).published = a.published ++ b.published := rfl
@[simp] theorem pendingAcks_append (a b : Effects) :
    (a ++ b).pendingAcks = a.pendingAcks ++ b.pendingAcks := rfl
@[simp] theorem ackDeadlines_append (a b : Effects) :
    (a ++ b).ackDeadlines = a.ackDeadlines ++ b.ackDeadlines := rfl
@[simp] theorem notifications_append (a b : Effects) :
    (a ++ b).notifications = a.notifications ++ b.notifications := rfl

theorem ext {a b : Effects} (hstream : a.stream = b.stream) (henqueued : a.enqueued = b.enqueued)
    (hpublished : a.published = b.published) (hpending : a.pendingAcks = b.pendingAcks)
    (hdeadlines : a.ackDeadlines = b.ackDeadlines)
    (hnotifications : a.notifications = b.notifications) : a = b := by
  cases a
  cases b
  simp_all

end Effects

/-- A `PUBLISH` that is due for a message and fails. -/
def publishFails (c : PostConfig) (p : PostDraw) (m : Message) : Bool :=
  shouldPublishMessageEvent m c.hasSseSubscribers && !p.publish

/-- What the post of `m` adds: `stopped` ends it after its `PUBLISH`. -/
def messageEffects (c : PostConfig) (p : PostDraw) (d : Draft) (m : Message) (stopped : Bool) :
    Effects where
  stream := [⟨p.streamId, streamFields c.settings c.platform p.draw d⟩]
  enqueued := if c.pgWriter then [m] else []
  published :=
    if shouldPublishMessageEvent m c.hasSseSubscribers && p.publish then [.message m] else []
  pendingAcks :=
    if !stopped && (m.requestAck && p.pendingAck) then [⟨m.id, m.toAgent, m.timestampUtc⟩] else []
  ackDeadlines :=
    if !stopped && (m.requestAck && p.ackDeadline) then
      [(⟨m.id, m.toAgent, p.draw.deadlineAt⟩, ackDeadlineKeyTtl (ackDeadlineSeconds m.priority))]
    else []
  notifications :=
    if !stopped && (isDirect m.toAgent && p.notify) then [notificationEntry p.notificationId m]
    else []

/-- What the posts of the given messages leave behind, those of which `stopped` says so ended after
their `PUBLISH`. -/
def leftBehind (c : PostConfig) (message : PostDraw → Draft → Message)
    (stopped : PostDraw → Message → Bool) (items : List (PostDraw × Draft)) : Effects :=
  items.foldr (fun (p, d) rest =>
    messageEffects c p d (message p d) (stopped p (message p d)) ++ rest) {}

/-- A part of what is left behind, message by message. -/
theorem leftBehind_part {α : Type} (part : Effects → List α) (hempty : part {} = [])
    (happend : ∀ a b : Effects, part (a ++ b) = part a ++ part b) (c : PostConfig)
    (message : PostDraw → Draft → Message) (stopped : PostDraw → Message → Bool)
    (items : List (PostDraw × Draft)) :
    part (leftBehind c message stopped items) = items.flatMap fun (p, d) =>
      part (messageEffects c p d (message p d) (stopped p (message p d))) := by
  induction items with
  | nil => exact hempty
  | cons item items ih =>
    rw [List.flatMap_cons, ← ih]
    exact happend _ _

/-- The notification entry of a message. -/
theorem appendNotifications_entries (p : PostDraw) (m : Message) :
    (appendNotificationsForMessage p m).1 =
      if isDirect m.toAgent && p.notify then [notificationEntry p.notificationId m] else [] := by
  rw [appendNotificationsForMessage]
  cases isDirect m.toAgent <;> cases p.notify <;> cases p.expire <;> rfl

theorem appendNotifications_notifications {p : PostDraw} {m : Message} (h : notifyFails p m = false) :
    (appendNotificationsForMessage p m).2 = if isDirect m.toAgent then [notification p m] else [] := by
  rw [notifyFails] at h
  rw [appendNotificationsForMessage]
  cases hdirect : isDirect m.toAgent <;> cases hnotify : p.notify <;> cases hexpire : p.expire <;>
    simp_all

/-! ### One by one -/

theorem busPost_stopped (c : PostConfig) {p : PostDraw} (d : Draft) (hxadd : p.xadd = true)
    (hfails : publishFails c p (postedMessage c.settings c.platform p d) = true) :
    busPostMessageWithSchema c p d =
      (messageEffects c p d (postedMessage c.settings c.platform p d) true, .error .publish) := by
  have hpublish : p.publish = false := by
    simp only [publishFails, Bool.and_eq_true, Bool.not_eq_true'] at hfails
    exact hfails.2
  rw [publishFails] at hfails
  simp only [busPostMessageWithSchema, hxadd, hfails, Bool.not_true, Bool.false_eq_true, if_false,
    if_true]
  simp only [messageEffects, hpublish, Bool.not_true, Bool.false_and, Bool.and_false,
    Bool.false_eq_true, if_false]

theorem busPost_through (c : PostConfig) {p : PostDraw} (d : Draft) (hxadd : p.xadd = true)
    (hfails : publishFails c p (postedMessage c.settings c.platform p d) = false) :
    busPostMessageWithSchema c p d =
      (messageEffects c p d (postedMessage c.settings c.platform p d) false,
        .ok ⟨postedMessage c.settings c.platform p d,
          (appendNotificationsForMessage p (postedMessage c.settings c.platform p d)).2⟩) := by
  -- the publication was due and went through, or it was not due
  have hdue : (shouldPublishMessageEvent (postedMessage c.settings c.platform p d)
      c.hasSseSubscribers && p.publish) =
      shouldPublishMessageEvent (postedMessage c.settings c.platform p d) c.hasSseSubscribers := by
    rw [publishFails] at hfails
    cases hd : shouldPublishMessageEvent (postedMessage c.settings c.platform p d)
      c.hasSseSubscribers
    · rfl
    · rw [hd, Bool.true_and, Bool.not_eq_false'] at hfails
      exact hfails
  rw [publishFails] at hfails
  simp only [busPostMessageWithSchema, hxadd, hfails, Bool.not_true, Bool.false_eq_true, if_false]
  refine Prod.ext ?_ rfl
  -- the effects agree field by field
  apply Effects.ext
  · rfl
  · exact List.append_nil _
  · show [] ++ _ = _
    rw [messageEffects, hdue]
    rfl
  · rfl
  · rfl
  · show [] ++ (appendNotificationsForMessage p (postedMessage c.settings c.platform p d)).1 = _
    rw [appendNotifications_entries]
    rfl

/-- **Posts one by one.** -/
theorem postEach_effects (c : PostConfig) {items : List (PostDraw × Draft)}
    (hxadd : ∀ i ∈ items, i.1.xadd = true) :
    (postEach c items).1 =
      leftBehind c (postedMessage c.settings c.platform) (publishFails c) items := by
  induction items with
  | nil => rfl
  | cons item items ih =>
    obtain ⟨p, d⟩ := item
    have hrest := ih fun i hi => hxadd i (List.mem_cons_of_mem _ hi)
    have hp : p.xadd = true := hxadd (p, d) List.mem_cons_self
    show (busPostMessageWithSchema c p d).1 ++ (postEach c items).1 = _
    rw [hrest]
    cases hfails : publishFails c p (postedMessage c.settings c.platform p d) with
    | true =>
      rw [busPost_stopped c d hp hfails]
      show _ = messageEffects c p d _ (publishFails c p _) ++ _
      rw [hfails]
      rfl
    | false =>
      rw [busPost_through c d hp hfails]
      show _ = messageEffects c p d _ (publishFails c p _) ++ _
      rw [hfails]
      rfl

/-- The messages the posts return, or their errors. -/
theorem postEach_results (c : PostConfig) {items : List (PostDraw × Draft)}
    (hxadd : ∀ i ∈ items, i.1.xadd = true) :
    (postEach c items).2.map (·.map PostedMessage.message) = items.map fun (p, d) =>
      let m := postedMessage c.settings c.platform p d
      if publishFails c p m then .error .publish else .ok m := by
  induction items with
  | nil => rfl
  | cons item items ih =>
    obtain ⟨p, d⟩ := item
    have hrest := ih fun i hi => hxadd i (List.mem_cons_of_mem _ hi)
    have hp : p.xadd = true := hxadd (p, d) List.mem_cons_self
    show (busPostMessageWithSchema c p d).2.map PostedMessage.message ::
      (postEach c items).2.map (·.map PostedMessage.message) = _
    rw [hrest, List.map_cons]
    cases hfails : publishFails c p (postedMessage c.settings c.platform p d) with
    | true =>
      rw [busPost_stopped c d hp hfails]
      simp [hfails, Except.map]
    | false =>
      rw [busPost_through c d hp hfails]
      simp [hfails, Except.map]

/-- With every command carried out, each message comes with its own notification. -/
theorem postEach_notified (c : PostConfig) {items : List (PostDraw × Draft)}
    (hxadd : ∀ i ∈ items, i.1.xadd = true)
    (hpublish : ∀ i ∈ items, publishFails c i.1 (postedMessage c.settings c.platform i.1 i.2) = false)
    (hnotify : ∀ i ∈ items,
      notifyFails i.1 (postedMessage c.settings c.platform i.1 i.2) = false) :
    (postEach c items).2 = items.map fun (p, d) =>
      let m := postedMessage c.settings c.platform p d
      .ok ⟨m, if isDirect m.toAgent then [notification p m] else []⟩ := by
  induction items with
  | nil => rfl
  | cons item items ih =>
    obtain ⟨p, d⟩ := item
    have hrest := ih (fun i hi => hxadd i (List.mem_cons_of_mem _ hi))
      (fun i hi => hpublish i (List.mem_cons_of_mem _ hi))
      (fun i hi => hnotify i (List.mem_cons_of_mem _ hi))
    show (busPostMessageWithSchema c p d).2 :: (postEach c items).2 = _
    rw [hrest, busPost_through c d (hxadd (p, d) List.mem_cons_self)
      (hpublish (p, d) List.mem_cons_self),
      appendNotifications_notifications (hnotify (p, d) List.mem_cons_self)]
    rfl

/-! ### A batch -/

section Batch

variable (c : PostConfig) {items : List (PostDraw × Draft)}

theorem all_added (hxadd : ∀ i ∈ items, i.1.xadd = true) :
    (items.any fun (p, _) => !p.xadd) = false := by
  rw [List.any_eq_false]
  intro i hi
  simp [hxadd i hi]

theorem batch_posted (hxadd : ∀ i ∈ items, i.1.xadd = true) :
    (busPostMessagesBatchWithSchema c items).2.map (·.map PostedMessage.message) =
      .ok (items.map fun (p, d) => batchMessage c.settings c.platform p d) := by
  simp only [busPostMessagesBatchWithSchema, all_added hxadd, Bool.false_eq_true, if_false]
  simp [Except.map, Function.comp_def]

/-- **Posts in a batch.** -/
theorem batch_effects (hxadd : ∀ i ∈ items, i.1.xadd = true) :
    (busPostMessagesBatchWithSchema c items).1 =
      leftBehind c (batchMessage c.settings c.platform) (fun _ _ => false) items := by
  simp only [busPostMessagesBatchWithSchema, all_added hxadd, Bool.false_eq_true, if_false]
  apply Effects.ext
  · rw [leftBehind_part Effects.stream rfl fun _ _ => rfl]
    refine List.flatMap_congr ?_
    intro i hi
    exact if_pos (hxadd i hi)
  · rw [leftBehind_part Effects.enqueued rfl fun _ _ => rfl]
    cases hwriter : c.pgWriter
    · simp [messageEffects, hwriter]
    · simp only [messageEffects, hwriter, if_true, List.map_map]
      exact List.map_eq_flatMap
  · rw [leftBehind_part Effects.published rfl fun _ _ => rfl]
    exact List.flatMap_map _ _ _
  · rw [leftBehind_part Effects.pendingAcks rfl fun _ _ => rfl]
    exact List.flatMap_map _ _ _
  · rw [leftBehind_part Effects.ackDeadlines rfl fun _ _ => rfl]
    exact List.flatMap_map _ _ _
  · rw [leftBehind_part Effects.notifications rfl fun _ _ => rfl]
    exact List.flatMap_map _ _ _

/-- With every notification carried out, each message comes with its own. -/
theorem batch_notified (hxadd : ∀ i ∈ items, i.1.xadd = true)
    (hnotify : ∀ i ∈ items,
      notifyFails i.1 (batchMessage c.settings c.platform i.1 i.2) = false) :
    (busPostMessagesBatchWithSchema c items).2 = .ok (items.map fun (p, d) =>
      let m := batchMessage c.settings c.platform p d
      ⟨m, if isDirect m.toAgent then [notification p m] else []⟩) := by
  simp only [busPostMessagesBatchWithSchema, all_added hxadd, Bool.false_eq_true, if_false,
    List.map_map]
  refine congrArg Except.ok (List.map_congr_left ?_)
  intro i hi
  rw [List.all_map, List.all_eq_true.2 fun j hj => by simp [hnotify j hj]]
  rfl

end Batch

/-! ### The comparison -/

section Comparison

variable {c : PostConfig} {items : List (PostDraw × Draft)}

theorem leftBehind_congr {message message' : PostDraw → Draft → Message}
    {stopped stopped' : PostDraw → Message → Bool}
    (h : ∀ i ∈ items, message i.1 i.2 = message' i.1 i.2 ∧
      stopped i.1 (message i.1 i.2) = stopped' i.1 (message' i.1 i.2)) :
    leftBehind c message stopped items = leftBehind c message' stopped' items := by
  induction items with
  | nil => rfl
  | cons item items ih =>
    obtain ⟨p, d⟩ := item
    obtain ⟨hmessage, hstopped⟩ := h (p, d) List.mem_cons_self
    have hrest := ih fun i hi => h i (List.mem_cons_of_mem _ hi)
    show messageEffects c p d (message p d) (stopped p (message p d)) ++
        leftBehind c message stopped items =
      messageEffects c p d (message' p d) (stopped' p (message' p d)) ++
        leftBehind c message' stopped' items
    rw [hrest, hstopped, hmessage]

/-- Records of acknowledgements do not depend on the metadata. -/
theorem leftBehind_acks
    (hpublish : ∀ i ∈ items, publishFails c i.1 (postedMessage c.settings c.platform i.1 i.2) = false) :
    let one := leftBehind c (postedMessage c.settings c.platform) (publishFails c) items
    let batch := leftBehind c (batchMessage c.settings c.platform) (fun _ _ => false) items
    one.pendingAcks = batch.pendingAcks ∧ one.ackDeadlines = batch.ackDeadlines := by
  intro one batch
  constructor
  · rw [leftBehind_part Effects.pendingAcks rfl fun _ _ => rfl,
      leftBehind_part Effects.pendingAcks rfl fun _ _ => rfl]
    refine List.flatMap_congr ?_
    intro i hi
    simp only [messageEffects, hpublish i hi]
    rfl
  · rw [leftBehind_part Effects.ackDeadlines rfl fun _ _ => rfl,
      leftBehind_part Effects.ackDeadlines rfl fun _ _ => rfl]
    refine List.flatMap_congr ?_
    intro i hi
    simp only [messageEffects, hpublish i hi]
    rfl

theorem leftBehind_stream (message message' : PostDraw → Draft → Message)
    (stopped stopped' : PostDraw → Message → Bool) :
    (leftBehind c message stopped items).stream = (leftBehind c message' stopped' items).stream := by
  rw [leftBehind_part Effects.stream rfl fun _ _ => rfl,
    leftBehind_part Effects.stream rfl fun _ _ => rfl]
  rfl

end Comparison

/-- **Single and batch posts agree**, but for the metadata of a message whose body is compressed with
no schema in force, and for a `PUBLISH` that fails: it ends a single post with an error.  Nothing else
that fails after `XADD` makes either of them fail. -/
theorem single_batch_agree (c : PostConfig) (items : List (PostDraw × Draft))
    (hxadd : ∀ i ∈ items, i.1.xadd = true) :
    let one := postEach c items
    let batch := busPostMessagesBatchWithSchema c items
    let single := postedMessage c.settings c.platform
    let batched := batchMessage c.settings c.platform
    let published := ∀ i ∈ items, publishFails c i.1 (single i.1 i.2) = false
    let annotated := ∀ i ∈ items, ¬ Unannotated c.platform i.2
    let notified := ∀ i ∈ items, notifyFails i.1 (batched i.1 i.2) = false
    (∀ p d, single p d = { batched p d with metadata := effectiveMetadata c.platform d }) ∧
      (∀ p d, ¬ Unannotated c.platform d → single p d = batched p d) ∧
      (one.2.map (·.map PostedMessage.message) = items.map fun (p, d) =>
        if publishFails c p (single p d) then .error .publish else .ok (single p d)) ∧
      (batch.2.map (·.map PostedMessage.message) = .ok (items.map fun (p, d) => batched p d)) ∧
      one.1 = leftBehind c single (publishFails c) items ∧
      batch.1 = leftBehind c batched (fun _ _ => false) items ∧
      one.1.stream = batch.1.stream ∧
      (published →
        one.1.pendingAcks = batch.1.pendingAcks ∧ one.1.ackDeadlines = batch.1.ackDeadlines) ∧
      (published → annotated → one.1 = batch.1) ∧
      (published → annotated → notified →
        ∃ posted, batch.2 = .ok posted ∧ one.2 = posted.map .ok) := by
  intro one batch single batched published annotated notified
  have hone : one.1 = leftBehind c single (publishFails c) items := postEach_effects c hxadd
  have hbatch : batch.1 = leftBehind c batched (fun _ _ => false) items := batch_effects c hxadd
  -- both writers leave behind what their own message says
  refine ⟨fun _ _ => rfl, fun _ _ h => postedMessage_eq_batchMessage h, postEach_results c hxadd,
    batch_posted c hxadd, hone, hbatch, ?_, ?_, ?_, ?_⟩
  · rw [hone, hbatch]
    exact leftBehind_stream _ _ _ _
  · intro hpublished
    rw [hone, hbatch]
    exact leftBehind_acks hpublished
  · intro hpublished hannotated
    rw [hone, hbatch]
    apply leftBehind_congr
    intro i hi
    exact ⟨postedMessage_eq_batchMessage (hannotated i hi), hpublished i hi⟩
  · intro hpublished hannotated hnotified
    refine ⟨_, batch_notified c hxadd hnotified, ?_⟩
    show (postEach c items).2 = _
    rw [postEach_notified c hxadd hpublished hnotified, List.map_map]
    refine List.map_congr_left ?_
    intro i hi
    have hsame : postedMessage c.settings c.platform i.1 i.2 =
        batchMessage c.settings c.platform i.1 i.2 :=
      postedMessage_eq_batchMessage (hannotated i hi)
    simp only [Function.comp_apply, hsame]

/-! ### Where they differ -/

def samplePostConfig : PostConfig where
  platform := samplePlatform
  settings := sampleSettings
  pgWriter := true
  hasSseSubscribers := false

/-- Everything is carried out. -/
def sampleDraw : PostDraw where
  draw := ⟨"m-1", "2026-01-01T00:00:00.000000Z", "2026-01-01T00:05:00.000000Z"⟩
  streamId := "1-0"
  notificationId := "n-1"
  notificationStreamId := "1-0"
  xadd := true
  publish := true
  pendingAck := true
  ackDeadline := true
  notify := true
  expire := true

def sampleDraft (body : String) : Draft where
  fromAgent := "a"
  toAgent := "b"
  topic := "chat"
  body := body
  threadId := none
  tags := []
  priority := "normal"
  requestAck := true
  replyTo := none
  metadata := .obj []
  schema := none

/-- A body just above the threshold of compression. -/
def longBody : String := String.ofList (List.replicate 513 'a')

theorem single_batch_agree_sample :
    let items := [(sampleDraw, sampleDraft "hello"), (sampleDraw, sampleDraft "again")]
    (postEach samplePostConfig items).1 = (busPostMessagesBatchWithSchema samplePostConfig items).1 :=
  (single_batch_agree samplePostConfig
    [(sampleDraw, sampleDraft "hello"), (sampleDraw, sampleDraft "again")]
    (by decide)).2.2.2.2.2.2.2.2.1 (by decide +kernel) (by decide +kernel)

/-- A long body without a schema comes back from a batch with the markers of its compression, and
from a single post without; and a single post whose `PUBLISH` fails reports an error for a message
that is in the stream, where a batch reports success. -/
theorem single_batch_differ :
    let single := (busPostMessageWithSchema samplePostConfig sampleDraw (sampleDraft longBody)).2
    let batch := (busPostMessagesBatchWithSchema samplePostConfig
      [(sampleDraw, sampleDraft longBody)]).2
    let quiet := { sampleDraw with publish := false }
    let failed := busPostMessageWithSchema samplePostConfig quiet (sampleDraft "hello")
    let warned := busPostMessagesBatchWithSchema samplePostConfig [(quiet, sampleDraft "hello")]
    single.toOption.map (fun posted => posted.message.metadata) = some (.obj []) ∧
      batch.toOption.map (fun posted => posted.map fun m => m.message.metadata) =
        some [.obj [("_compressed", .str "lz4"), ("_original_size", .int 513)]] ∧
      failed.2.toOption = none ∧ failed.1.stream.length = 1 ∧
      warned.2.toOption.isSome ∧ warned.1.stream = failed.1.stream := by
  decide +kernel

end AgentHub.Hub
