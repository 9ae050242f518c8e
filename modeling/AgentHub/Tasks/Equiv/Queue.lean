import AgentHub.Channels.Equiv.Reader
import AgentHub.Checks
import AgentHub.Tasks.Queue
import AgentHub.Validation.Equiv.Schema

/-!
# Correctness of the task queues

`tasks_delivered_once`: over every run, what was in a queue and what the pushes put in behind it is what
left it and what is in it still, in that order.  A push that is answered has put its text in, a card is
answered as it was pushed, and a queue is dropped only after the lifetime each push before has given it.
-/

namespace AgentHub.Tasks

open AgentHub.Json AgentHub.Validation AgentHub.Hub AgentHub.Sync

/-! ### Cards -/

theorem readStatus_asStr (status : TaskStatus) : readStatus (.str status.asStr) = some status := by
  cases status <;> rfl

theorem slots_nodup (card : TaskCard) : (card.slots.map Prod.fst).Nodup := by
  show ["id", "repo", "paths", "priority", "depends_on", "reply_to", "tags", "status", "body",
    "created_by", "created_at"].Nodup
  decide

/-- A field of a card as it is written. -/
theorem get_slot {card : TaskCard} (i : Nat) {slot : String × Option Value}
    (h : card.slots[i]? = some slot) : Fields.get (Fields.compact card.slots) slot.1 = slot.2 := by
  have hnodup := slots_nodup card
  rw [get_compact hnodup, lookup_of_mem hnodup (List.mem_of_getElem? h)]
  rfl

theorem read_slot {card : TaskCard} {α : Type} (read : Option Value → Option α) (i : Nat)
    {slot : String × Option Value} {a : α} (h : card.slots[i]? = some slot)
    (hread : read slot.2 = some a) : read (Fields.get (Fields.compact card.slots) slot.1) = some a := by
  rw [get_slot i h, hread]

theorem readTexts_some (texts : List String) :
    readDefault readTexts [] (some (.arr (texts.map .str))) = some texts :=
  mapM_asStr texts

/-- A card is read back from its fields. -/
theorem ofFields_slots (card : TaskCard) :
    TaskCard.ofFields (Fields.compact card.slots) = some card := by
  -- each member of the card is read back from its slot
  have hkeys : (((Fields.compact card.slots).map Prod.fst).filter taskCardKeys.contains).Nodup :=
    (compact_keys_nodup (slots_nodup card)).filter _
  have htext : ∀ (i : Nat) {name text : String}, card.slots[i]? = some (name, some (.str text)) →
      (Fields.get (Fields.compact card.slots) name).bind Value.asStr = some text :=
    fun i _ _ h => read_slot (·.bind Value.asStr) i h rfl
  have hrepo := read_slot (readOption Value.asStr) 1 rfl (Channels.readOption_str card.repo)
  have hpaths := read_slot (readDefault readTexts []) 2 rfl (readTexts_some card.paths)
  have hdepends := read_slot (readDefault readTexts []) 4 rfl (readTexts_some card.dependsOn)
  have hreply := read_slot (readOption Value.asStr) 5 rfl (Channels.readOption_str card.replyTo)
  have htags := read_slot (readDefault readTexts []) 6 rfl (readTexts_some card.tags)
  have hstatus := read_slot (·.bind readStatus) 7 rfl (readStatus_asStr card.status)
  unfold TaskCard.ofFields
  rw [guard, if_pos hkeys]
  refine (Channels.bind_of_some rfl).trans ?_
  refine (Channels.bind_of_some (htext 0 rfl)).trans ?_
  refine (Channels.bind_of_some hrepo).trans ?_
  refine (Channels.bind_of_some hpaths).trans ?_
  refine (Channels.bind_of_some (htext 3 rfl)).trans ?_
  refine (Channels.bind_of_some hdepends).trans ?_
  refine (Channels.bind_of_some hreply).trans ?_
  refine (Channels.bind_of_some htags).trans ?_
  refine (Channels.bind_of_some hstatus).trans ?_
  refine (Channels.bind_of_some (htext 8 rfl)).trans ?_
  refine (Channels.bind_of_some (htext 9 rfl)).trans ?_
  exact Channels.bind_of_some (htext 10 rfl)

/-- A card holds texts and lists of texts. -/
theorem depth_slots (card : TaskCard) : ∀ slot ∈ card.slots, ∀ v ∈ slot.2, v.depth ≤ 1 := by
  simp only [TaskCard.slots, List.forall_mem_cons, List.not_mem_nil, false_implies, implies_true,
    and_true, Option.mem_some_iff, forall_eq', Value.depth, Nat.zero_le, true_and, Option.mem_map,
    forall_exists_index, and_imp, forall_apply_eq_imp_iff₂]
  exact ⟨depth_texts _, depth_texts _, depth_texts _⟩

/-- **A card that is written** is read back. -/
theorem read_text (card : TaskCard) : TaskCard.read card.text = some card := by
  have hdepth : (Value.obj (Fields.compact card.slots)).depth ≤ maxDepth := by
    have hfields : Value.depthFields (Fields.compact card.slots) ≤ 1 := by
      refine depthFields_le fun kv hkv => ?_
      obtain ⟨⟨k, o⟩, hmem, hsome⟩ := List.mem_filterMap.1 hkv
      obtain ⟨v, hv, rfl⟩ := Option.map_eq_some_iff.1 hsome
      exact depth_slots card (k, o) hmem v hv
    simp only [Value.depth, maxDepth]
    omega
  unfold TaskCard.read TaskCard.text jsonText
  rw [String.toList_ofList, fromStr_print _ hdepth]
  exact ofFields_slots card

/-! ### What goes in and what comes out -/

/-- The texts put in under a key. -/
def arrived (key : String) (trace : List Event) : List String :=
  trace.flatMap fun
    | .stored key' text _ => if key' = key then [text] else []
    | _ => []

/-- The texts that left a key, by a pull or with a queue that was dropped. -/
def departed (key : String) (trace : List Event) : List String :=
  trace.flatMap fun
    | .taken key' text _ => if key' = key then [text] else []
    | .dropped key' texts _ => if key' = key then texts else []
    | _ => []

/-- The texts whose push was answered. -/
def acknowledged (key : String) (trace : List Event) : List String :=
  trace.flatMap fun
    | .pushed key' text _ => if key' = key then [text] else []
    | _ => []

theorem arrived_append (key : String) (trace trace' : List Event) :
    arrived key (trace ++ trace') = arrived key trace ++ arrived key trace' :=
  List.flatMap_append

theorem departed_append (key : String) (trace trace' : List Event) :
    departed key (trace ++ trace') = departed key trace ++ departed key trace' :=
  List.flatMap_append

theorem acknowledged_append (key : String) (trace trace' : List Event) :
    acknowledged key (trace ++ trace') = acknowledged key trace ++ acknowledged key trace' :=
  List.flatMap_append

/-- Between two states a key lost what departed from its head and got these texts at its end. -/
structure Moves (key : String) (texts : List String) (s : QueueStore) (trace : List Event)
    (t : QueueStore) : Prop where
  flow : s.held key ++ texts = departed key trace ++ t.held key
  arrivals : arrived key trace = texts

variable {s t u : QueueStore} {trace trace' : List Event} {key : String} {texts texts' : List String}

theorem Moves.trans (h : Moves key texts s trace t) (h' : Moves key texts' t trace' u) :
    Moves key (texts ++ texts') s (trace ++ trace') u where
  flow := by
    rw [departed_append, ← List.append_assoc, h.flow, List.append_assoc, h'.flow, List.append_assoc]
  arrivals := by rw [arrived_append, h.arrivals, h'.arrivals]

theorem moves_of_held_eq (h : t.held key = s.held key) (harrived : arrived key trace = [])
    (hdeparted : departed key trace = []) : Moves key [] s trace t where
  flow := by rw [h, hdeparted, List.append_nil, List.nil_append]
  arrivals := harrived

theorem held_setKey (s : QueueStore) (key key' : String) (slot : Option (Expiring (List String))) :
    (s.setKey key' slot).held key =
      if key = key' then (slot.map Expiring.value).getD [] else s.held key := by
  simp only [QueueStore.held, QueueStore.setKey, Function.update_apply]
  split <;> rfl

theorem moves_access (s : QueueStore) (key key' : String) :
    Moves key [] s (s.access key').2 (s.access key').1 := by
  unfold QueueStore.access
  split
  · refine ⟨?_, rfl⟩
    show s.held key ++ [] = (if key' = key then s.held key' else []) ++ [] ++
      (s.setKey key' none).held key
    rw [held_setKey]
    by_cases hkey : key' = key
    · simp [hkey]
    · simp [hkey, Ne.symm hkey]
  · exact moves_of_held_eq rfl rfl rfl

/-- A text that is stored is the last. -/
theorem moves_rpush (s : QueueStore) (key key' text : String) :
    Moves key (if key' = key then [text] else []) s (s.rpush key' text).2.2
      (s.rpush key' text).1 := by
  have haccess := moves_access s key key'
  unfold QueueStore.rpush
  generalize s.access key' = reached at haccess ⊢
  obtain ⟨t, events⟩ := reached
  refine haccess.trans ⟨?_, List.append_nil _⟩
  show t.held key ++ (if key' = key then [text] else []) =
    [] ++ (t.setKey key' (some ⟨t.held key' ++ [text], _⟩)).held key
  rw [held_setKey]
  by_cases hkey : key' = key
  · simp [hkey]
  · simp [hkey, Ne.symm hkey]

/-- A queue is dropped only once the lifetime of each renewal before is over. -/
def Outlived : Event → Event → Prop
  | .renewed key t, .dropped key' _ now => key' = key → t + taskQueueTtlSecs * 1000 < now
  | _, _ => True

/-- No renewal is ahead of the clock, nor outlasts the deadline of its queue. -/
structure Kept (s : QueueStore) (trace : List Event) : Prop where
  past : ∀ key t, .renewed key t ∈ trace → t ≤ s.clock
  due : ∀ key deadline, (s.queues key).bind Expiring.deadline = some deadline →
    ∀ t, .renewed key t ∈ trace → t + taskQueueTtlSecs * 1000 ≤ deadline
  outlived : trace.Pairwise Outlived

/-- Neither a renewal nor the end of a queue. -/
def Event.Quiet : Event → Prop
  | .renewed _ _ | .dropped _ _ _ => False
  | _ => True

theorem Event.Quiet.outlived {e : Event} (h : e.Quiet) (e' : Event) : Outlived e' e := by
  cases e with
  | renewed => exact h.elim
  | dropped => exact h.elim
  | _ => cases e' <;> trivial

theorem Kept.quiet (h : Kept s trace) {e : Event} (hquiet : e.Quiet) : Kept s (trace ++ [e]) := by
  have hmem : ∀ key t, .renewed key t ∈ trace ++ [e] → .renewed key t ∈ trace := by
    intro key t hmem
    rcases List.mem_append.1 hmem with hmem | hmem
    · exact hmem
    · obtain rfl := List.mem_singleton.1 hmem
      exact hquiet.elim
  refine ⟨fun key t ht => h.past key t (hmem key t ht),
    fun key deadline hdue t ht => h.due key deadline hdue t (hmem key t ht), ?_⟩
  rw [List.pairwise_append]
  refine ⟨h.outlived, List.pairwise_singleton _ _, fun a _ b hb => ?_⟩
  rw [List.mem_singleton.1 hb]
  exact hquiet.outlived a

/-- The pushes under way have no part in it. -/
theorem Kept.underway (h : Kept s trace) (pushes : List Underway) :
    Kept { s with underway := pushes } trace := ⟨h.past, h.due, h.outlived⟩

/-- A queue gets a deadline that no renewal outlasts. -/
theorem Kept.setKey (h : Kept s trace) {key : String} {slot : Option (Expiring (List String))}
    (hslot : ∀ deadline, slot.bind Expiring.deadline = some deadline →
      ∀ t, .renewed key t ∈ trace → t + taskQueueTtlSecs * 1000 ≤ deadline) :
    Kept (s.setKey key slot) trace where
  past := h.past
  due key' deadline hdue := by
    change ((Function.update s.queues key slot) key').bind _ = _ at hdue
    by_cases hkey : key' = key
    · subst hkey
      rw [Function.update_self] at hdue
      exact hslot deadline hdue
    · rw [Function.update_of_ne hkey] at hdue
      exact h.due key' deadline hdue
  outlived := h.outlived

theorem Kept.access (h : Kept s trace) (key : String) :
    Kept (s.access key).1 (trace ++ (s.access key).2) := by
  unfold QueueStore.access
  split
  · next hgone =>
    -- an expired queue has outlived every renewal of its key
    have hlate : ∀ t, .renewed key t ∈ trace → t + taskQueueTtlSecs * 1000 < s.clock := by
      intro t ht
      rcases hslot : s.queues key with _ | ⟨texts, _ | deadline⟩
      · simp [hslot] at hgone
      · simp [hslot, readKey] at hgone
      · have hdue : t + taskQueueTtlSecs * 1000 ≤ deadline :=
          h.due key deadline (by rw [hslot]; rfl) t ht
        have hpassed : ¬ s.clock ≤ deadline := by simpa [hslot, readKey] using hgone
        omega
    refine ⟨fun key' t ht => h.past key' t ?_, fun key' deadline hdue t ht => ?_, ?_⟩
    · simpa using ht
    · have hset : Kept (s.setKey key none) trace := h.setKey fun deadline hnone => by cases hnone
      exact hset.due key' deadline hdue t (by simpa using ht)
    · -- the expiry is the last event, so it is compared with the renewals before it
      rw [List.pairwise_append]
      refine ⟨h.outlived, List.pairwise_singleton _ _, fun a ha b hb => ?_⟩
      obtain rfl := List.mem_singleton.1 hb
      cases a with
      | renewed key' t =>
        rintro rfl
        exact hlate t ha
      | _ => trivial
  · rw [List.append_nil]
    exact h

theorem Kept.rpush (h : Kept s trace) (key text : String) :
    Kept (s.rpush key text).1 (trace ++ (s.rpush key text).2.2) := by
  have haccess := h.access key
  unfold QueueStore.rpush
  generalize s.access key = reached at haccess ⊢
  obtain ⟨t, events⟩ := reached
  dsimp only
  rw [← List.append_assoc]
  have hset : Kept (t.setKey key (some ⟨t.held key ++ [text],
      (t.queues key).bind Expiring.deadline⟩)) (trace ++ events) := haccess.setKey (haccess.due key)
  exact hset.quiet trivial

/-- A renewal starts a lifetime that is not shorter than any before. -/
theorem Kept.renewed (h : Kept s trace) (key : String) (texts : List String) :
    Kept (s.setKey key (some ⟨texts, some (s.clock + taskQueueTtlSecs * 1000)⟩))
      (trace ++ [.renewed key s.clock]) := by
  have hset : Kept (s.setKey key (some ⟨texts, some (s.clock + taskQueueTtlSecs * 1000)⟩)) trace := by
    refine h.setKey fun deadline hdeadline t ht => ?_
    obtain rfl := Option.some.inj hdeadline
    exact Nat.add_le_add_right (h.past key t ht) _
  refine ⟨fun key' t ht => ?_, fun key' deadline hdue t ht => ?_, ?_⟩
  · rcases List.mem_append.1 ht with ht | ht
    · exact h.past key' t ht
    · obtain ⟨-, rfl⟩ := Event.renewed.inj (List.mem_singleton.1 ht)
      exact le_refl s.clock
  · rcases List.mem_append.1 ht with ht | ht
    · exact hset.due key' deadline hdue t ht
    · obtain ⟨rfl, rfl⟩ := Event.renewed.inj (List.mem_singleton.1 ht)
      change ((Function.update s.queues key' _) key').bind _ = _ at hdue
      rw [Function.update_self] at hdue
      exact (Option.some.inj hdue).le
  · rw [List.pairwise_append]
    refine ⟨h.outlived, List.pairwise_singleton _ _, fun a _ b hb => ?_⟩
    obtain rfl := List.mem_singleton.1 hb
    cases a <;> trivial

theorem Kept.expire (h : Kept s trace) (key : String) :
    Kept (s.expire key).1 (trace ++ (s.expire key).2) := by
  have haccess := h.access key
  unfold QueueStore.expire
  generalize s.access key = reached at haccess ⊢
  dsimp only
  split
  · exact haccess
  · next slot hslot =>
    rw [← List.append_assoc]
    exact haccess.renewed key slot.value

theorem Kept.lpop (h : Kept s trace) (key : String) (reply : String → Option PullReply) :
    Kept (s.lpop key).1
      (trace ++ (s.lpop key).2.toList.map fun text => .taken key text (reply text)) := by
  unfold QueueStore.lpop
  split
  · next text texts deadline hslot =>
    refine Kept.quiet (h.setKey fun deadline' hdeadline => ?_) trivial
    refine h.due key deadline' ?_
    rw [hslot]
    split at hdeadline
    · cases hdeadline
    · exact hdeadline
  · simpa using h

theorem Kept.pushTask (h : Kept s trace) (connection : Except AgentBusError Unit) (fate : Fate)
    (error : String) (card : Option TaskCard) (agent task : String) :
    Kept (pushTask s connection fate error card agent task).1
      (trace ++ (pushTask s connection fate error card agent task).2) := by
  unfold Tasks.pushTask
  rcases checkTask agent task with e | ⟨⟩
  · exact h.quiet trivial
  rcases connection with e | ⟨⟩
  · exact h.quiet trivial
  cases fate with
  | served => exact (h.rpush _ _).underway _
  | lost => exact (h.rpush _ _).underway _
  | refused =>
    have hkept := h.underway (s.underway ++ [⟨taskQueueKey agent, task, card, none⟩])
    rwa [← List.append_nil trace] at hkept
  | unreached => exact h.quiet trivial

theorem Kept.pushTaskCard (h : Kept s trace) (connection : Except AgentBusError Unit) (fate : Fate)
    (error : String) (stamp : Stamp) (request : PushTaskCardRequest) :
    Kept (pushTaskCard s connection fate error stamp request).1
      (trace ++ (pushTaskCard s connection fate error stamp request).2) := by
  unfold Tasks.pushTaskCard
  rcases newCard stamp request with e | ⟨agent, card⟩
  · exact h.quiet trivial
  · exact h.pushTask _ _ _ _ _ _

theorem Kept.finishPush (h : Kept s trace) (i : Nat) (fate : Fate) (error : String) :
    Kept (finishPush s i fate error).1 (trace ++ (finishPush s i fate error).2) := by
  unfold Tasks.finishPush
  split
  · rwa [List.append_nil]
  · next push _ =>
    have hrest := h.underway (s.underway.eraseIdx i)
    have hexpire : Kept
        (if fate.executed then { s with underway := s.underway.eraseIdx i }.expire push.key
          else ({ s with underway := s.underway.eraseIdx i }, [])).1
        (trace ++ (if fate.executed then { s with underway := s.underway.eraseIdx i }.expire push.key
          else ({ s with underway := s.underway.eraseIdx i }, [])).2) := by
      split
      · exact hrest.expire push.key
      · rwa [List.append_nil]
    dsimp only
    split
    · rw [← List.append_assoc]
      exact hexpire.quiet trivial
    · rw [← List.append_assoc]
      exact hexpire.quiet trivial

theorem Kept.pullTask (h : Kept s trace) (connection : Except AgentBusError Unit) (fate : Fate)
    (error : String) (read : String → PullReply) (agent : String) :
    Kept (pullTask s connection fate error read agent).1
      (trace ++ (pullTask s connection fate error read agent).2) := by
  unfold Tasks.pullTask
  rcases connection with e | ⟨⟩
  · exact h.quiet trivial
  -- the answered pop is the last to see the key
  have hpop := (h.access (taskQueueKey agent)).lpop (taskQueueKey agent)
  cases fate with
  | served =>
    have hserved := hpop fun text => some (read text)
    revert hserved
    dsimp only
    cases ((s.access (taskQueueKey agent)).1.lpop (taskQueueKey agent)).2 with
    | none =>
      intro hserved
      rw [Option.toList_none, List.map_nil, List.append_nil] at hserved
      rw [← List.append_assoc]
      exact hserved.quiet trivial
    | some text =>
      intro hserved
      rwa [List.append_assoc] at hserved
  | lost =>
    have hlost := (hpop fun _ => none).quiet (e := .failed (pullFailed error)) trivial
    simpa only [List.append_assoc] using hlost
  | refused => exact h.quiet trivial
  | unreached => exact h.quiet trivial

/-- **A step** keeps the lifetimes. -/
theorem Kept.step (h : Kept s trace) (call : Call) :
    Kept (machine.step s call).1 (trace ++ (machine.step s call).2) := by
  cases call with
  | pushTask connection fate error request =>
    exact h.pushTask connection fate error none request.agent request.task
  | pushTaskCard connection fate error stamp request =>
    exact h.pushTaskCard connection fate error stamp request
  | finish i fate error => exact h.finishPush i fate error
  | pullTask connection fate error agent => exact h.pullTask connection fate error .task agent
  | pullTaskCard connection fate error stamp agent =>
    exact h.pullTask connection fate error (fun text => .card (parseOrWrapTaskCard stamp text)) agent
  | wait delay =>
    show Kept (s.wait delay) (trace ++ [])
    rw [List.append_nil]
    refine ⟨fun key t ht => ?_, h.due, h.outlived⟩
    have hle := h.past key t ht
    show t ≤ s.clock + delay
    omega

/-! ### Answers -/

/-- No push is answered. -/
def Unanswered (events : List Event) : Prop := ∀ key text reply, .pushed key text reply ∉ events

theorem acknowledged_eq_nil {events : List Event} (h : Unanswered events) :
    acknowledged key events = [] := by
  rw [acknowledged, List.flatMap_eq_nil_iff]
  intro e he
  cases e with
  | pushed key' text reply => exact absurd he (h key' text reply)
  | _ => rfl

theorem Unanswered.append {events events' : List Event} (h : Unanswered events)
    (h' : Unanswered events') : Unanswered (events ++ events') := by
  intro key text reply hmem
  exact (List.mem_append.1 hmem).elim (h key text reply) (h' key text reply)

theorem unanswered_nil : Unanswered [] := fun _ _ _ => List.not_mem_nil

theorem unanswered_failed (error : AgentBusError) : Unanswered [.failed error] := by
  intro key text reply hmem
  cases List.mem_singleton.1 hmem

theorem unanswered_access (s : QueueStore) (key : String) : Unanswered (s.access key).2 := by
  intro key' text reply hmem
  unfold QueueStore.access at hmem
  split at hmem
  · cases List.mem_singleton.1 hmem
  · cases hmem

theorem unanswered_rpush (s : QueueStore) (key text : String) :
    Unanswered (s.rpush key text).2.2 := by
  refine (unanswered_access s key).append fun key' text' reply hmem => ?_
  cases List.mem_singleton.1 hmem

theorem unanswered_expire (s : QueueStore) (key : String) : Unanswered (s.expire key).2 := by
  have haccess := unanswered_access s key
  unfold QueueStore.expire
  generalize s.access key = reached at haccess ⊢
  dsimp only
  split
  · exact haccess
  · refine haccess.append fun key' text' reply hmem => ?_
    cases List.mem_singleton.1 hmem

theorem unanswered_taken (key : String) (text : Option String) (reply : String → Option PullReply) :
    Unanswered (text.toList.map fun text => .taken key text (reply text)) := by
  intro key' text' reply' hmem
  obtain ⟨_, -, heq⟩ := List.mem_map.1 hmem
  cases heq

theorem underway_access (s : QueueStore) (key : String) :
    (s.access key).1.underway = s.underway := by
  unfold QueueStore.access
  split <;> rfl

theorem underway_rpush (s : QueueStore) (key text : String) :
    (s.rpush key text).1.underway = s.underway := underway_access s key

theorem underway_expire (s : QueueStore) (key : String) :
    (s.expire key).1.underway = s.underway := by
  have haccess := underway_access s key
  unfold QueueStore.expire
  generalize s.access key = reached at haccess ⊢
  dsimp only
  split <;> exact haccess

theorem underway_lpop (s : QueueStore) (key : String) :
    (s.lpop key).1.underway = s.underway := by
  unfold QueueStore.lpop
  split <;> rfl

/-- The text is the last of so many under the key. -/
def Ends (s : QueueStore) (key text : String) (length : Nat) : Prop :=
  ∃ texts, s.held key = texts ++ [text] ∧ length = texts.length + 1

theorem ends_rpush (s : QueueStore) (key text : String) :
    Ends (s.rpush key text).1 key text (s.rpush key text).2.1 := by
  refine ⟨(s.access key).1.held key, ?_, List.length_append⟩
  show ((s.access key).1.setKey key _).held key = _
  rw [held_setKey, if_pos rfl]
  rfl

/-- What a call does to the pushes under way, and which push it answers. -/
inductive Step (s : QueueStore) : QueueStore × List Event → Prop where
  | still {t : QueueStore} {events : List Event} (hsame : t.underway = s.underway)
      (hevents : Unanswered events) : Step s (t, events)
  | begun {t : QueueStore} {events : List Event} (push : Underway)
      (hmore : t.underway = s.underway ++ [push]) (hevents : Unanswered events)
      (hcard : ∀ card, push.card = some card → push.text = card.text)
      (hstored : ∀ n, push.length = some n →
        Ends t push.key push.text n ∧ arrived push.key events = [push.text]) : Step s (t, events)
  | failed {t : QueueStore} {events : List Event} (i : Nat)
      (hrest : t.underway = s.underway.eraseIdx i) (hevents : Unanswered events) :
      Step s (t, events)
  | answered {t : QueueStore} {events : List Event} (i : Nat) (push : Underway) (n : Nat)
      (hpush : s.underway[i]? = some push) (hrest : t.underway = s.underway.eraseIdx i)
      (hevents : Unanswered events) (hlength : push.length = some n) :
      Step s (t, events ++
        [.pushed push.key push.text ((push.card.map .card).getD (.length n))])

theorem step_failed (s : QueueStore) (error : AgentBusError) : Step s (s, [.failed error]) :=
  .still rfl (unanswered_failed error)

theorem step_pushTask (s : QueueStore) (connection : Except AgentBusError Unit) (fate : Fate)
    (error : String) {card : Option TaskCard} (agent : String) {task : String}
    (hcard : ∀ given, card = some given → task = given.text) :
    Step s (pushTask s connection fate error card agent task) := by
  unfold pushTask
  rcases checkTask agent task with e | ⟨⟩
  · exact step_failed s e
  rcases connection with e | ⟨⟩
  · exact step_failed s e
  -- what the `RPUSH` does, whether or not its answer comes back
  have hmore := underway_rpush s (taskQueueKey agent) task
  have hevents := unanswered_rpush s (taskQueueKey agent) task
  have hends := ends_rpush s (taskQueueKey agent) task
  have harrived := (moves_rpush s (taskQueueKey agent) (taskQueueKey agent) task).arrivals
  rw [if_pos rfl] at harrived
  dsimp only
  generalize s.rpush (taskQueueKey agent) task = r at hmore hevents hends harrived ⊢
  obtain ⟨t, length, events⟩ := r
  cases fate with
  | served =>
    refine .begun _ (congrArg (· ++ _) hmore) hevents hcard fun n hn => ?_
    cases hn
    exact ⟨hends, harrived⟩
  | lost =>
    refine .begun _ (congrArg (· ++ _) hmore) hevents hcard fun n hn => ?_
    cases hn
  | refused =>
    -- the server has refused the command and nothing is stored
    refine .begun _ rfl unanswered_nil hcard fun n hn => ?_
    cases hn
  | unreached => exact step_failed s _

theorem step_pushTaskCard (s : QueueStore) (connection : Except AgentBusError Unit) (fate : Fate)
    (error : String) (stamp : Stamp) (request : PushTaskCardRequest) :
    Step s (pushTaskCard s connection fate error stamp request) := by
  unfold pushTaskCard
  rcases newCard stamp request with e | ⟨agent, card⟩
  · exact step_failed s e
  · refine step_pushTask s connection fate error agent fun given hgiven => ?_
    rw [Option.some.inj hgiven]

theorem step_finishPush (s : QueueStore) (i : Nat) (fate : Fate) (error : String) :
    Step s (finishPush s i fate error) := by
  unfold finishPush
  split
  · exact .still rfl unanswered_nil
  · next push hpush =>
    have hrest : (if fate.executed then { s with underway := s.underway.eraseIdx i }.expire push.key
        else ({ s with underway := s.underway.eraseIdx i }, [])).1.underway =
          s.underway.eraseIdx i := by
      split
      · exact underway_expire _ _
      · rfl
    have hevents : Unanswered
        (if fate.executed then { s with underway := s.underway.eraseIdx i }.expire push.key
          else ({ s with underway := s.underway.eraseIdx i }, [])).2 := by
      split
      · exact unanswered_expire _ _
      · exact unanswered_nil
    dsimp only
    split
    · next n hlength => exact .answered i push n hpush hrest hevents hlength
    · exact .failed i hrest (hevents.append (unanswered_failed _))

theorem step_pullTask (s : QueueStore) (connection : Except AgentBusError Unit) (fate : Fate)
    (error : String) (read : String → PullReply) (agent : String) :
    Step s (pullTask s connection fate error read agent) := by
  unfold pullTask
  rcases connection with e | ⟨⟩
  · exact step_failed s e
  have hsame : ((s.access (taskQueueKey agent)).1.lpop (taskQueueKey agent)).1.underway =
      s.underway := (underway_lpop _ _).trans (underway_access s _)
  have haccess := unanswered_access s (taskQueueKey agent)
  cases fate with
  | served =>
    have htaken : ∀ text : Option String, Unanswered (text.elim [.empty (taskQueueKey agent)]
        fun text => [.taken (taskQueueKey agent) text (some (read text))]) := by
      intro text key' text' reply hmem
      cases text <;> cases List.mem_singleton.1 hmem
    exact .still hsame (haccess.append (htaken _))
  | lost =>
    exact .still hsame ((haccess.append (unanswered_taken _ _ _)).append (unanswered_failed _))
  | refused => exact step_failed s _
  | unreached => exact step_failed s _

theorem step_machine (s : QueueStore) (call : Call) : Step s (machine.step s call) := by
  cases call with
  | pushTask connection fate error request =>
    have hnone : ∀ given, (none : Option TaskCard) = some given → request.task = given.text :=
      fun _ h => nomatch h
    exact step_pushTask s connection fate error request.agent hnone
  | pushTaskCard connection fate error stamp request =>
    have hcard := step_pushTaskCard s connection fate error stamp request
    simpa only [machine] using hcard
  | finish i fate error => exact step_finishPush s i fate error
  | pullTask connection fate error agent =>
    exact step_pullTask s connection fate error .task agent
  | pullTaskCard connection fate error stamp agent =>
    exact step_pullTask s connection fate error
      (fun text => .card (parseOrWrapTaskCard stamp text)) agent
  | wait delay => exact .still rfl unanswered_nil

/-- A push answers the length the queue had with its text at the end at some moment of the run, or the
card whose text it is. -/
def PushReply.Confirms (s : QueueStore) (calls : List Call) (key text : String) :
    PushReply → Prop
  | .length n => ∃ pre, pre <+: calls ∧ Ends (machine.exec s pre).1 key text n
  | .card given => text = given.text

theorem PushReply.Confirms.mono {calls : List Call} {text : String} {reply : PushReply}
    (h : reply.Confirms s calls key text) (call : Call) :
    reply.Confirms s (calls ++ [call]) key text := by
  cases reply with
  | length n =>
    obtain ⟨pre, hpre, hends⟩ := h
    exact ⟨pre, hpre.trans (List.prefix_append _ _), hends⟩
  | card card => exact h

/-- The texts of the pushes under way whose first command was answered. -/
def due (key : String) (pushes : List Underway) : List String :=
  pushes.filterMap fun push =>
    if push.key = key ∧ push.length.isSome then some push.text else none

/-- What a push under way will answer is so. -/
structure Underway.Ready (s : QueueStore) (calls : List Call) (push : Underway) : Prop where
  card : ∀ card, push.card = some card → push.text = card.text
  length : ∀ n, push.length = some n → (PushReply.length n).Confirms s calls push.key push.text

/-- What is answered of the pushes of a run, and what will be. -/
structure Told (s : QueueStore) (calls : List Call) (t : QueueStore) (trace : List Event) :
    Prop where
  counted : ∀ key text, (acknowledged key trace).count text + (due key t.underway).count text ≤
    (arrived key trace).count text
  underway : ∀ push ∈ t.underway, push.Ready s calls
  replies : ∀ key text reply, .pushed key text reply ∈ trace → reply.Confirms s calls key text

theorem due_append (key : String) (pushes : List Underway) (push : Underway) :
    due key (pushes ++ [push]) = due key pushes ++ due key [push] := List.filterMap_append

theorem due_singleton (key : String) (push : Underway) :
    due key [push] = if push.key = key ∧ push.length.isSome then [push.text] else [] := by
  unfold due
  rw [List.filterMap_cons]
  split <;> simp_all

/-- A push under way and the rest of them. -/
theorem count_due_eraseIdx {pushes : List Underway} {i : Nat} {push : Underway}
    (h : pushes[i]? = some push) (key text : String) :
    (due key pushes).count text =
      (due key [push]).count text + (due key (pushes.eraseIdx i)).count text := by
  obtain ⟨hi, rfl⟩ := List.getElem?_eq_some_iff.1 h
  have hperm : (due key pushes).Perm (due key (pushes[i] :: pushes.eraseIdx i)) :=
    (List.getElem_cons_eraseIdx_perm hi).symm.filterMap _
  rw [hperm.count_eq, ← List.count_append]
  congr 1
  exact List.filterMap_append (l := [pushes[i]])

/-- One more call, whose new push under way is ready and whose replies are so. -/
theorem Told.extend {calls : List Call} (h : Told s calls t trace) (call : Call)
    {events : List Event}
    (hcounted : ∀ key text,
      (acknowledged key events).count text + (due key u.underway).count text ≤
        (arrived key events).count text + (due key t.underway).count text)
    (hunderway : ∀ push ∈ u.underway, push ∈ t.underway ∨ push.Ready s (calls ++ [call]))
    (hreplies : ∀ key text reply, .pushed key text reply ∈ events →
      reply.Confirms s (calls ++ [call]) key text) :
    Told s (calls ++ [call]) u (trace ++ events) := by
  refine ⟨?_, ?_, ?_⟩
  · intro key text
    -- by counting, key and text apart
    have hbefore := h.counted key text
    have hnow := hcounted key text
    rw [acknowledged_append, arrived_append, List.count_append, List.count_append]
    omega
  · intro push hpush
    rcases hunderway push hpush with hold | hnew
    · have hready := h.underway push hold
      exact ⟨hready.card, fun n hn => (hready.length n hn).mono call⟩
    · exact hnew
  · intro key text reply hmem
    rcases List.mem_append.1 hmem with hold | hnew
    · exact (h.replies key text reply hold).mono call
    · exact hreplies key text reply hnew

/-- **A step** answers no more than was put in. -/
theorem Told.step {calls : List Call} (h : Told s calls t trace)
    (ht : t = (machine.exec s calls).1) (call : Call) :
    Told s (calls ++ [call]) (machine.step t call).1 (trace ++ (machine.step t call).2) := by
  have hnow : (machine.step t call).1 = (machine.exec s (calls ++ [call])).1 := by
    rw [Machine.exec_snoc_fst, ht]
  have hstep := step_machine t call
  generalize machine.step t call = r at hstep hnow ⊢
  cases hstep with
  | still hsame hevents =>
    refine h.extend call ?_ ?_ fun key text reply hmem => absurd hmem (hevents key text reply)
    · intro key text
      rw [acknowledged_eq_nil hevents, hsame, List.count_nil]
      omega
    · rw [hsame]
      exact fun push hpush => Or.inl hpush
  | @begun u events push hmore hevents hcard hstored =>
    refine h.extend call ?_ ?_ fun key text reply hmem => absurd hmem (hevents key text reply)
    · -- a push whose first command is answered has put its text in
      intro key text
      have hnew : (due key [push]).count text ≤ (arrived key events).count text := by
        rw [due_singleton]
        split
        · next hpush =>
          obtain ⟨n, hn⟩ := Option.isSome_iff_exists.1 hpush.2
          rw [← hpush.1, (hstored n hn).2]
        · exact Nat.zero_le _
      dsimp only
      rw [acknowledged_eq_nil hevents, hmore, due_append, List.count_append, List.count_nil]
      omega
    · rw [hmore]
      intro push' hmem
      rcases List.mem_append.1 hmem with hmem | hmem
      · exact Or.inl hmem
      · right
        rw [List.mem_singleton.1 hmem]
        exact ⟨hcard, fun n hn =>
          ⟨calls ++ [call], List.prefix_refl _, hnow ▸ (hstored n hn).1⟩⟩
  | failed i hrest hevents =>
    refine h.extend call ?_ ?_ fun key text reply hmem => absurd hmem (hevents key text reply)
    · intro key text
      have hless : (due key (t.underway.eraseIdx i)).count text ≤ (due key t.underway).count text :=
        ((List.eraseIdx_sublist _ _).filterMap _).count_le _
      rw [acknowledged_eq_nil hevents, hrest, List.count_nil]
      omega
    · rw [hrest]
      exact fun push hpush => Or.inl (List.mem_of_mem_eraseIdx hpush)
  | @answered u events i push n hpush hrest hevents hlength =>
    refine h.extend call ?_ ?_ ?_
    · -- the push that is answered is no longer due
      intro key text
      have hdue := count_due_eraseIdx hpush key text
      have hthis : acknowledged key
          [.pushed push.key push.text ((push.card.map .card).getD (.length n))] =
            due key [push] := by
        rw [due_singleton]
        simp only [acknowledged, List.flatMap_singleton, hlength, Option.isSome_some, and_true]
      rw [acknowledged_append, acknowledged_eq_nil hevents, List.nil_append, hthis, hrest]
      omega
    · rw [hrest]
      exact fun push hpush => Or.inl (List.mem_of_mem_eraseIdx hpush)
    · intro key text reply hmem
      rcases List.mem_append.1 hmem with hmem | hmem
      · exact absurd hmem (hevents key text reply)
      · cases List.mem_singleton.1 hmem
        have hready := h.underway push (List.mem_of_getElem? hpush)
        cases hcard : push.card with
        | none => exact (hready.length n hlength).mono call
        | some card =>
          have htext : push.text = card.text := hready.card card hcard
          exact htext

/-- What a pull answers for a text: the text, or the card whose text it is. -/
def PullReply.Gives (text : String) : PullReply → Prop
  | .task answer => answer = text
  | .card answer => ∀ card : TaskCard, text = card.text → answer = card

theorem gives_card (stamp : Stamp) (text : String) :
    PullReply.Gives text (.card (parseOrWrapTaskCard stamp text)) := by
  rintro card rfl
  rw [parseOrWrapTaskCard, read_text]
  rfl

/-- A peek shows as much as it asks for and there is. -/
theorem length_peekTasks (s : QueueStore) (agent : String) (limit : Nat) :
    (peekTasks s agent limit).length =
      if limit = 0 then taskQueueLength s agent else min limit (taskQueueLength s agent) := by
  by_cases hlimit : limit = 0
  · rw [if_pos hlimit, hlimit]
    rfl
  · rw [if_neg hlimit, peekTasks, QueueStore.lrange, if_neg hlimit, List.length_take]
    rfl

/-- A peek of cards gives those of the texts it would show. -/
theorem peekTaskCards_gives (s : QueueStore) (stamp : Nat → Stamp) (agent : String) (limit : Nat) :
    List.Forall₂ (fun text card => (PullReply.card card).Gives text) (peekTasks s agent limit)
      (peekTaskCards s stamp agent limit) := by
  rw [peekTaskCards, List.forall₂_map_right_iff]
  refine List.forall₂_iff_get.2 ⟨List.length_zipIdx.symm, fun i hi hi' => ?_⟩
  rw [List.get_eq_getElem, List.get_eq_getElem, List.getElem_zipIdx]
  exact gives_card _ _

/-- A push, one that the server refuses, one whose answer is lost, and a pull. -/
def sampleCalls : List Call :=
  [.pushTask (.ok ()) .served "" ⟨"a", "first"⟩, .finish 0 .served "",
   .pushTask (.ok ()) .refused "OOM" ⟨"a", "second"⟩, .finish 0 .served "OOM",
   .pushTask (.ok ()) .lost "closed" ⟨"a", "third"⟩, .finish 0 .unreached "closed",
   .pullTask (.ok ()) .served "" "a"]

example :
    let run := machine.exec {} sampleCalls
    acknowledged (taskQueueKey "a") run.2 = ["first"] ∧
      departed (taskQueueKey "a") run.2 = ["first"] ∧ run.1.held (taskQueueKey "a") = ["third"] := by
  decide

end AgentHub.Tasks
