import AgentHub.Dedup
import AgentHub.Hub.Equiv.Script
import AgentHub.Keys
import AgentHub.Sync.Equiv.Entry
import AgentHub.Sync.Ingest

/-!
# Ingesting once

Within the lifetime of the markers, ingestion is de-duplication by the key of the marker
(`exec_dedup`).  The key joins the hub and the identifier with a colon that either may contain, so
ingestion is exact in the runs where no call comes upon the marker of another message, and in no
others (`ingest_exact_iff`).
-/

namespace AgentHub.Sync

open AgentHub.Dedup
open AgentHub.Hub (Expiring readKey readKey_eq_some)
open AgentHub.Validation (AgentBusError)

/-- How far a call gets. -/
def ScriptFate.reach : ScriptFate → Fate
  | .served => .succeeds
  | .faulty _ => .fails
  | .refused _ => .unreached

/-- Ingestion as de-duplication: hub and identifier under the key of the marker. -/
def ingestScheme : Scheme IngestCall (String × String) String where
  name call := (ingestName call.message).toOption
  key name := ingestSeenKey name.1 name.2
  fate call := call.fate.reach

/-- The result of a call, without its texts. -/
def answerOf : Except AgentBusError IngestOutcome → Answer
  | .ok .ingested => .added
  | .ok .duplicate => .duplicate
  | .error _ => .error

/-- The hub and the identifier in the fields of an entry. -/
def entryName (entry : Entry) : String × String :=
  (entry.fields.text "origin_hub", entry.fields.text "id")

/-! ### One call -/

/-- The markers in force are those of some keys, and each has its whole lifetime from the start. -/
structure Remembers (s : IngestStore) (keys : List String) : Prop where
  marked : ∀ key, s.markers key ≠ none ↔ key ∈ keys
  lasting : ∀ key marker, s.markers key = some marker →
    ∃ deadline, marker.deadline = some deadline ∧ ingestSeenTtlSeconds * 1000 ≤ deadline

theorem Remembers.marked_iff {s : IngestStore} {keys : List String} (h : Remembers s keys)
    (hclock : s.clock ≤ ingestSeenTtlSeconds * 1000) (key : String) :
    s.marked key = true ↔ key ∈ keys := by
  rw [← h.marked key]
  unfold IngestStore.marked
  cases hmarker : s.markers key with
  | none => simp [readKey]
  | some marker =>
    obtain ⟨deadline, hdeadline, hle⟩ := h.lasting key marker hmarker
    have hread : readKey (some marker) s.clock = some marker.value :=
      readKey_eq_some.2 ⟨marker.deadline, rfl, by
        rw [hdeadline]
        rintro t ⟨⟩
        omega⟩
    simp [hread]

theorem unmark_markers (s : IngestStore) (key : String) :
    (s.unmark key).markers = Function.update s.markers key none := rfl

theorem mark_markers (s : IngestStore) (key : String) :
    (s.mark key).markers = Function.update s.markers key
      (some ⟨(), some (s.clock + ingestSeenTtlSeconds * 1000)⟩) := rfl

theorem Remembers.unmark {s : IngestStore} {keys : List String} (h : Remembers s keys)
    {key : String} (hkey : key ∉ keys) : Remembers (s.unmark key) keys where
  marked key' := by
    rw [unmark_markers]
    by_cases heq : key' = key
    · subst heq
      simpa using hkey
    · rw [Function.update_of_ne heq]
      exact h.marked key'
  lasting key' marker hmarker := by
    rw [unmark_markers] at hmarker
    by_cases heq : key' = key
    · subst heq
      simp at hmarker
    · rw [Function.update_of_ne heq] at hmarker
      exact h.lasting key' marker hmarker

theorem Remembers.mark {s : IngestStore} {keys : List String} (h : Remembers s keys)
    (key : String) : Remembers (s.mark key) (keys ++ [key]) where
  marked key' := by
    rw [mark_markers]
    by_cases heq : key' = key
    · subst heq
      simp
    · rw [Function.update_of_ne heq, h.marked key']
      simp [heq]
  lasting key' marker hmarker := by
    rw [mark_markers] at hmarker
    by_cases heq : key' = key
    · subst heq
      rw [Function.update_self] at hmarker
      obtain rfl := Option.some.inj hmarker
      exact ⟨_, rfl, Nat.le_add_left _ _⟩
    · rw [Function.update_of_ne heq] at hmarker
      exact h.lasting key' marker hmarker

/-- A reservation that is taken back leaves no trace. -/
theorem unmark_mark_unmark (s : IngestStore) (key : String) :
    ((s.unmark key).mark key).unmark key = s.unmark key := by
  simp [IngestStore.mark, IngestStore.unmark]

theorem ingestName_eq_ok {m : Message} {name : String × String} (h : ingestName m = .ok name) :
    name.1 ≠ "" ∧ name.2 = m.id := by
  unfold ingestName at h
  split at h
  case h_1 => cases h
  case h_2 originHub hhub =>
    split_ifs at h with hid
    obtain rfl := Except.ok.inj h
    have hne := (Option.filter_eq_some_iff.1 hhub).2
    exact ⟨by simpa using hne, rfl⟩

/-- The entry of a message carries its name. -/
theorem entryName_synced (id : StreamId) (m : Message) (originHub : String) :
    entryName ⟨id, syncedFields m originHub⟩ = (originHub, m.id) := by
  unfold entryName
  rw [syncedFields_text (v := some originHub) (by rfl), syncedFields_text (v := some m.id) (by rfl)]
  rfl

/-- The script, after its fate. -/
theorem invoke_spec {s : IngestStore} {keys : List String} (h : Remembers s keys)
    (hclock : s.clock ≤ ingestSeenTtlSeconds * 1000) (maxlen : Nat) (key : String) (entry : Entry)
    (trimmed : Nat) (fate : ScriptFate) :
    let out := invoke s maxlen key entry trimmed fate
    out.1.clock = s.clock ∧
      ((out.2 = .ok (some entry.id) ∧ key ∉ keys ∧ fate.reach = .succeeds ∧
          Remembers out.1 (keys ++ [key])) ∨
        (out.2 = .ok none ∧ key ∈ keys ∧ fate.reach ≠ .unreached ∧ Remembers out.1 keys) ∨
        ∃ e, out.2 = .error e ∧ Remembers out.1 keys ∧
          (fate.reach = .unreached ∨ key ∉ keys ∧ fate.reach = .fails)) := by
  by_cases hkey : key ∈ keys
  · -- the marker is there: the answer is a duplicate, and nothing is written
    have hmarked := (h.marked_iff hclock key).2 hkey
    cases fate with
    | served =>
      simp only [invoke, IngestStore.ingestScript, hmarked, if_true]
      exact ⟨trivial, .inr (.inl ⟨trivial, hkey, by decide, h⟩)⟩
    | faulty fault =>
      simp only [invoke, IngestStore.ingestScript, hmarked, if_true]
      exact ⟨trivial, .inr (.inl ⟨trivial, hkey, by rintro ⟨⟩, h⟩)⟩
    | refused e => exact ⟨rfl, .inr (.inr ⟨e, rfl, h, .inl rfl⟩)⟩
  · -- no marker: what the script does next decides
    have hmarked : s.marked key = false := by
      rw [← Bool.not_eq_true, h.marked_iff hclock key]
      exact hkey
    cases fate with
    | served =>
      simp only [invoke, IngestStore.ingestScript, hmarked, Bool.false_eq_true, if_false]
      refine ⟨rfl, .inl ⟨trivial, hkey, rfl, ?_⟩⟩
      have hmark := (h.unmark hkey).mark key
      exact ⟨hmark.marked, hmark.lasting⟩
    | faulty fault =>
      simp only [invoke, IngestStore.ingestScript, hmarked, Bool.false_eq_true, if_false]
      cases fault with
      | streamType => exact ⟨rfl, .inr (.inr ⟨_, rfl, h, .inr ⟨hkey, rfl⟩⟩)⟩
      | permission => exact ⟨rfl, .inr (.inr ⟨_, rfl, h, .inr ⟨hkey, rfl⟩⟩)⟩
      -- the reservation failed, and the script takes its marker back
      | reserve e => exact ⟨rfl, .inr (.inr ⟨_, rfl, h.unmark hkey, .inr ⟨hkey, rfl⟩⟩)⟩
      | xadd e =>
        refine ⟨rfl, .inr (.inr ⟨_, rfl, ?_, .inr ⟨hkey, rfl⟩⟩)⟩
        rw [unmark_mark_unmark]
        exact h.unmark hkey
    | refused e => exact ⟨rfl, .inr (.inr ⟨e, rfl, h, .inl rfl⟩)⟩

/-- A call is answered as de-duplication by the key says, and the stream gets the entry of a message
that is added. -/
theorem ingest_dedup {s : IngestStore} {keys : List String} (h : Remembers s keys)
    (hclock : s.clock ≤ ingestSeenTtlSeconds * 1000) (maxlen : Nat) (call : IngestCall) :
    let out := ingestSyncedMessage maxlen s call
    answerOf out.2.1 = ingestScheme.answer keys call ∧
      Remembers out.1 (keys ++
        (ingestScheme.addedNames [(call, answerOf out.2.1)]).map ingestScheme.key) ∧
      out.2.2.toList.map entryName = ingestScheme.addedNames [(call, answerOf out.2.1)] ∧
      out.1.clock = s.clock := by
  dsimp only
  unfold ingestSyncedMessage
  cases hname : ingestName call.message with
  | error e =>
    have hnone : ingestScheme.name call = none := by simp [ingestScheme, hname, Except.toOption]
    have hanswer : ingestScheme.answer keys call = .error := by
      unfold Scheme.answer
      rw [hnone]
    rw [hanswer]
    exact ⟨rfl, by simpa [answerOf, Scheme.addedNames_singleton] using h,
      by simp [answerOf, Scheme.addedNames_singleton], rfl⟩
  -- the answer of the scheme is the one the three cases of the script give
  | ok name =>
    have hsome : ingestScheme.name call = some name := by
      simp [ingestScheme, hname, Except.toOption]
    obtain ⟨-, hid⟩ := ingestName_eq_ok hname
    obtain ⟨hclock', hcases⟩ := invoke_spec h hclock maxlen (ingestSeenKey name.1 name.2)
      ⟨call.id, syncedFields call.message name.1⟩ call.trimmed call.fate
    dsimp only
    generalize invoke s maxlen (ingestSeenKey name.1 name.2)
      ⟨call.id, syncedFields call.message name.1⟩ call.trimmed call.fate = out at hclock' hcases ⊢
    obtain ⟨t, reply⟩ := out
    obtain ⟨rfl, hkey, hfate, hrem⟩ | ⟨rfl, hkey, hfate, hrem⟩ | ⟨e, rfl, hrem, hfate⟩ := hcases
    · -- added: the entry carries the name it was accepted under
      have hadded : ingestScheme.addedNames [(call, Answer.added)] = [name] := by
        rw [Scheme.addedNames_singleton, if_pos rfl, hsome]
        rfl
      refine ⟨(Scheme.answer_of_notMem hsome hfate hkey).symm, ?_, ?_, hclock'⟩
      · show Remembers t (keys ++ (ingestScheme.addedNames [(call, Answer.added)]).map _)
        rw [hadded]
        exact hrem
      · show [entryName _] = ingestScheme.addedNames [(call, Answer.added)]
        rw [hadded, entryName_synced, ← hid]
    · have hnone : ingestScheme.addedNames [(call, Answer.duplicate)] = [] := by
        rw [Scheme.addedNames_singleton]
        rfl
      refine ⟨(Scheme.answer_of_seen hsome hfate hkey).symm, ?_, hnone.symm, hclock'⟩
      show Remembers t (keys ++ (ingestScheme.addedNames [(call, Answer.duplicate)]).map _)
      rw [hnone, List.map_nil, List.append_nil]
      exact hrem
    · have hnone : ingestScheme.addedNames [(call, Answer.error)] = [] := by
        rw [Scheme.addedNames_singleton]
        rfl
      refine ⟨(Scheme.answer_of_fails hsome hfate).symm, ?_, hnone.symm, hclock'⟩
      show Remembers t (keys ++ (ingestScheme.addedNames [(call, Answer.error)]).map _)
      rw [hnone, List.map_nil, List.append_nil]
      exact hrem

/-! ### Runs -/

def totalDelay (calls : List IngestCall) : Nat := (calls.map IngestCall.delay).sum

/-- The names of the entries the stream got. -/
def receivedNames (outs : List Ingested) : List (String × String) :=
  outs.flatMap fun o => o.received.toList.map entryName

/-- A call and its answer. -/
def Ingested.answered (o : Ingested) : IngestCall × Answer := (o.call, answerOf o.result)

/-- A store that remembers nothing. -/
def forgetful (stream : List Entry) : IngestStore := { stream }

/-- **Within the lifetime of the markers, ingestion is de-duplication by their key.** -/
theorem exec_dedup (maxlen : Nat) (stream : List Entry) (calls : List IngestCall)
    (hdelay : totalDelay calls ≤ ingestSeenTtlSeconds * 1000) :
    let outs := ((ingesting maxlen).exec (forgetful stream) calls).2
    outs.map Ingested.answered = ingestScheme.log calls ∧
      receivedNames outs = ingestScheme.addedNames (ingestScheme.log calls) := by
  -- induction on the calls, with the clock as the sum of their delays
  have hrun := (ingesting maxlen).exec_induction (s := forgetful stream)
    (P := fun calls s outs => totalDelay calls ≤ ingestSeenTtlSeconds * 1000 →
      s.clock = totalDelay calls ∧
      Remembers s ((ingestScheme.addedNames (ingestScheme.log calls)).map ingestScheme.key) ∧
      outs.map Ingested.answered = ingestScheme.log calls ∧
      receivedNames outs = ingestScheme.addedNames (ingestScheme.log calls)) ?_ ?_ calls hdelay
  · exact hrun.2.2
  · intro _
    exact ⟨rfl, ⟨by simp [forgetful, Scheme.log, Scheme.addedNames], by rintro key marker ⟨⟩⟩,
      rfl, rfl⟩
  · intro calls s outs call ih hle
    have htotal : totalDelay (calls ++ [call]) = totalDelay calls + call.delay := by
      simp [totalDelay]
    rw [htotal] at hle
    obtain ⟨hclock, hrem, hanswers, hreceived⟩ := ih (by omega)
    have hwait : Remembers (s.wait call.delay)
        ((ingestScheme.addedNames (ingestScheme.log calls)).map ingestScheme.key) :=
      ⟨hrem.marked, hrem.lasting⟩
    have hclock' : (s.wait call.delay).clock = totalDelay calls + call.delay := by
      rw [← hclock]
      rfl
    obtain ⟨hanswer, hrem', hentry, hsame⟩ :=
      ingest_dedup hwait (by rw [hclock']; exact hle) maxlen call
    have hlog : ingestScheme.log (calls ++ [call]) = ingestScheme.log calls ++
        [(call, answerOf (ingestSyncedMessage maxlen (s.wait call.delay) call).2.1)] := by
      rw [Scheme.log_snoc, hanswer]
    refine ⟨?_, ?_, ?_, ?_⟩
    · show (ingestSyncedMessage maxlen (s.wait call.delay) call).1.clock = _
      rw [hsame, hclock', htotal]
    · rw [hlog, Scheme.addedNames_append, List.map_append]
      exact hrem'
    · rw [List.map_append, hanswers, hlog]
      rfl
    · rw [hlog, Scheme.addedNames_append, ← hreceived, ← hentry]
      show (outs ++ [_]).flatMap _ = _
      rw [List.flatMap_append, List.flatMap_singleton]
      rfl

/-! ### Exact ingestion -/

/-- Every message with a successful call got one entry, the others none; a duplicate was ingested
before; and a message that was not ingested yet is ingested by the next call that Redis serves. -/
structure IngestedOnce (outs : List Ingested) : Prop where
  once : ∀ name, (∃ o ∈ outs, ingestName o.call.message = .ok name ∧ ∃ r, o.result = .ok r) →
    (receivedNames outs).count name = 1
  none : ∀ name, (∀ o ∈ outs, ingestName o.call.message = .ok name → ∃ e, o.result = .error e) →
    (receivedNames outs).count name = 0
  duplicate : ∀ pre o post, outs = pre ++ o :: post → o.result = .ok .duplicate →
    ∃ o' ∈ pre, ingestName o'.call.message = ingestName o.call.message ∧ o'.result = .ok .ingested
  retry : ∀ pre o post name, outs = pre ++ o :: post → ingestName o.call.message = .ok name →
    o.call.fate = .served →
    (∀ o' ∈ pre, ingestName o'.call.message = .ok name → o'.result ≠ .ok .ingested) →
    o.result = .ok .ingested

/-- No call that reaches the marker of its message finds one that an earlier call left for another
message. -/
def Unmixed (calls : List IngestCall) : Prop :=
  calls.Pairwise fun call call' => call.fate = .served → (∀ e, call'.fate ≠ .refused e) →
    ∀ name name', ingestName call.message = .ok name → ingestName call'.message = .ok name' →
      ¬ Keys.Shift name.1 name.2 name'.1 name'.2 ∧ ¬ Keys.Shift name'.1 name'.2 name.1 name.2

theorem ingestSeenKey_eq (originHub id : String) :
    ingestSeenKey originHub id = "agent_bus:cloud_sync:ingested:" ++ (originHub ++ ":" ++ id) := by
  unfold ingestSeenKey
  simp only [toString, String.append_assoc]

/-- Two names have one key when they are the same or one is a shift of the other. -/
theorem ingestSeenKey_inj {name name' : String × String} :
    ingestScheme.key name = ingestScheme.key name' ↔
      name = name' ∨ Keys.Shift name.1 name.2 name'.1 name'.2 ∨
        Keys.Shift name'.1 name'.2 name.1 name.2 := by
  show ingestSeenKey _ _ = ingestSeenKey _ _ ↔ _
  rw [ingestSeenKey_eq, ingestSeenKey_eq, String.append_right_inj, Keys.joined_eq_iff,
    Prod.ext_iff]

theorem scheme_name_eq {call : IngestCall} {name : String × String} :
    ingestScheme.name call = some name ↔ ingestName call.message = .ok name := by
  show (ingestName call.message).toOption = some name ↔ _
  cases ingestName call.message <;> simp [Except.toOption]

theorem reach_eq_succeeds {fate : ScriptFate} : fate.reach = .succeeds ↔ fate = .served := by
  cases fate <;> simp [ScriptFate.reach]

theorem reach_ne_unreached {fate : ScriptFate} :
    fate.reach ≠ .unreached ↔ ∀ e, fate ≠ .refused e := by
  cases fate <;> simp [ScriptFate.reach]

theorem separate_iff (calls : List IngestCall) : ingestScheme.Separate calls ↔ Unmixed calls := by
  apply List.Pairwise.iff
  intro call call'
  show (call.fate.reach = .succeeds → call'.fate.reach ≠ .unreached → _) ↔ _
  rw [reach_eq_succeeds, reach_ne_unreached]
  refine imp_congr Iff.rfl (imp_congr Iff.rfl (forall_congr' fun name => forall_congr' fun name' =>
    imp_congr scheme_name_eq (imp_congr scheme_name_eq ?_)))
  rw [ingestSeenKey_inj]
  constructor
  · intro h
    exact ⟨fun hs => hs.ne (h (.inr (.inl hs))), fun hs => hs.ne (h (.inr (.inr hs))).symm⟩
  · rintro ⟨hne, hne'⟩ (heq | hs | hs)
    · exact heq
    · exact absurd hs hne
    · exact absurd hs hne'

theorem answerOf_eq_added {r : Except AgentBusError IngestOutcome} :
    answerOf r = .added ↔ r = .ok .ingested := by
  rcases r with _ | _ | _ <;> simp [answerOf]

theorem answerOf_eq_duplicate {r : Except AgentBusError IngestOutcome} :
    answerOf r = .duplicate ↔ r = .ok .duplicate := by
  rcases r with _ | _ | _ <;> simp [answerOf]

theorem answerOf_eq_error {r : Except AgentBusError IngestOutcome} :
    answerOf r = .error ↔ ∃ e, r = .error e := by
  rcases r with _ | _ | _ <;> simp [answerOf]

theorem answerOf_ne_error {r : Except AgentBusError IngestOutcome} :
    answerOf r ≠ .error ↔ ∃ outcome, r = .ok outcome := by
  rcases r with _ | _ | _ <;> simp [answerOf]

/-- What was added, among answered calls. -/
theorem mem_added_answered {outs : List Ingested} {name : String × String} :
    name ∈ ingestScheme.addedNames (outs.map Ingested.answered) ↔
      ∃ o ∈ outs, ingestName o.call.message = .ok name ∧ o.result = .ok .ingested := by
  rw [Scheme.mem_addedNames]
  constructor
  · rintro ⟨e, he, hname, hadded⟩
    obtain ⟨o, ho, rfl⟩ := List.mem_map.1 he
    exact ⟨o, ho, scheme_name_eq.1 hname, answerOf_eq_added.1 hadded⟩
  · rintro ⟨o, ho, hname, hadded⟩
    exact ⟨o.answered, List.mem_map_of_mem ho, scheme_name_eq.2 hname,
      answerOf_eq_added.2 hadded⟩

/-- Exact ingestion is exact de-duplication. -/
theorem ingestedOnce_iff {outs : List Ingested}
    (h : receivedNames outs = ingestScheme.addedNames (outs.map Ingested.answered))
    (hnamed : ∀ o ∈ outs, o.result = .ok .duplicate →
      ∃ name, ingestName o.call.message = .ok name) :
    IngestedOnce outs ↔ ingestScheme.ExactlyOnce (outs.map Ingested.answered) := by
  constructor
  · -- each clause through the list of answers of the scheme
    intro hi
    refine ⟨fun name => ⟨?_, ?_⟩, ?_, ?_⟩
    · rintro ⟨e, he, hname, hanswer⟩
      obtain ⟨o, ho, rfl⟩ := List.mem_map.1 he
      rw [← h]
      exact hi.once name ⟨o, ho, scheme_name_eq.1 hname, answerOf_ne_error.1 hanswer⟩
    · intro hnone
      rw [← h]
      refine hi.none name fun o ho hname => answerOf_eq_error.1 ?_
      exact hnone o.answered (List.mem_map_of_mem ho) (scheme_name_eq.2 hname)
    · intro pre e post name hsplit hname he
      obtain ⟨pre, rest, rfl, rfl, hrest⟩ := List.map_eq_append_iff.1 hsplit
      obtain ⟨o, post, rfl, rfl, rfl⟩ := List.map_eq_cons_iff.1 hrest
      obtain ⟨o', ho', hsame, hresult⟩ := hi.duplicate pre o post rfl (answerOf_eq_duplicate.1 he)
      exact mem_added_answered.2 ⟨o', ho', hsame.trans (scheme_name_eq.1 hname), hresult⟩
    · intro pre e post name hsplit hname hfate hnew
      obtain ⟨pre, rest, rfl, rfl, hrest⟩ := List.map_eq_append_iff.1 hsplit
      obtain ⟨o, post, rfl, rfl, rfl⟩ := List.map_eq_cons_iff.1 hrest
      apply answerOf_eq_added.2
      refine hi.retry pre o post name rfl (scheme_name_eq.1 hname) (reach_eq_succeeds.1 hfate) ?_
      intro o' ho' hname' hresult
      exact hnew (mem_added_answered.2 ⟨o', ho', hname', hresult⟩)
  · intro he
    refine ⟨?_, ?_, ?_, ?_⟩
    · rintro name ⟨o, ho, hname, hresult⟩
      rw [h]
      exact (he.once name).1 ⟨o.answered, List.mem_map_of_mem ho, scheme_name_eq.2 hname,
        answerOf_ne_error.2 hresult⟩
    · intro name hnone
      rw [h]
      apply (he.once name).2
      intro e hmem hname
      obtain ⟨o, ho, rfl⟩ := List.mem_map.1 hmem
      exact answerOf_eq_error.2 (hnone o ho (scheme_name_eq.1 hname))
    · -- a duplicate names an earlier acceptance; its own name comes from hnamed
      intro pre o post hsplit hresult
      subst hsplit
      obtain ⟨name, hname⟩ := hnamed o (List.mem_append_right _ List.mem_cons_self) hresult
      have hadded := he.duplicate (pre.map Ingested.answered) o.answered
        (post.map Ingested.answered) name (by simp) (scheme_name_eq.2 hname)
        (answerOf_eq_duplicate.2 hresult)
      obtain ⟨o', ho', hname', hresult'⟩ := mem_added_answered.1 hadded
      exact ⟨o', ho', hname'.trans hname.symm, hresult'⟩
    · intro pre o post name hsplit hname hfate hnew
      subst hsplit
      have hadded := he.retry (pre.map Ingested.answered) o.answered (post.map Ingested.answered)
        name (by simp) (scheme_name_eq.2 hname) (reach_eq_succeeds.2 hfate) ?_
      · exact answerOf_eq_added.1 hadded
      · intro hmem
        obtain ⟨o', ho', hname', hresult⟩ := mem_added_answered.1 hmem
        exact hnew o' ho' hname' hresult

/-- A run is exact as far as de-duplication by the key is. -/
theorem ingestedOnce_exec (maxlen : Nat) (stream : List Entry) {calls : List IngestCall}
    (hdelay : totalDelay calls ≤ ingestSeenTtlSeconds * 1000) :
    IngestedOnce ((ingesting maxlen).exec (forgetful stream) calls).2 ↔
      ingestScheme.Separate calls := by
  obtain ⟨hanswers, hreceived⟩ := exec_dedup maxlen stream calls hdelay
  have hnamed : ∀ o ∈ ((ingesting maxlen).exec (forgetful stream) calls).2,
      o.result = .ok .duplicate → ∃ name, ingestName o.call.message = .ok name := by
    intro o ho hresult
    have hlog : o.answered ∈ ingestScheme.log calls := by
      rw [← hanswers]
      exact List.mem_map_of_mem ho
    obtain ⟨name, hname⟩ := Scheme.exists_name_of_duplicate hlog (answerOf_eq_duplicate.2 hresult)
    exact ⟨name, scheme_name_eq.1 hname⟩
  rw [ingestedOnce_iff (by rw [hreceived, hanswers]) hnamed, hanswers, Scheme.exactlyOnce_iff]

/-- **Ingestion is exact in the runs where no call comes upon the marker of another message, and in
no others.** -/
theorem ingest_exact_iff (maxlen : Nat) (stream : List Entry) (calls : List IngestCall)
    (hdelay : totalDelay calls ≤ ingestSeenTtlSeconds * 1000) :
    IngestedOnce ((ingesting maxlen).exec (forgetful stream) calls).2 ↔ Unmixed calls := by
  rw [ingestedOnce_exec maxlen stream hdelay, separate_iff]

/-- Between hubs without a colon in their names nothing is mixed up. -/
theorem unmixed_of_plain {calls : List IngestCall}
    (h : ∀ call ∈ calls, ∀ name, ingestName call.message = .ok name → ':' ∉ name.1.toList) :
    Unmixed calls := by
  apply List.pairwise_of_forall_mem_list
  intro call hcall call' hcall' _ _ name name' hname hname'
  exact ⟨fun hs => h call' hcall' name' hname' hs.colon, fun hs => h call hcall name hname hs.colon⟩

/-! ### Two hubs -/

/-- A message of a hub. -/
def syncedMessage (originHub id : String) : Message where
  id
  timestampUtc := "2026-01-01T00:00:00.000000Z"
  protocolVersion := "1.0"
  fromAgent := "alice"
  toAgent := "bob"
  topic := "note"
  body := "hello"
  threadId := none
  tags := []
  priority := "normal"
  requestAck := false
  replyTo := none
  metadata := .obj []
  streamId := none
  clientMsgId := none
  originHub := some originHub
  originSeq := none
  hlc := none
  sensitivity := none

def servedCall (ms : Nat) (originHub id : String) : IngestCall where
  message := syncedMessage originHub id
  delay := 1
  fate := .served
  id := StreamId.mk ms 0
  trimmed := 0

/-- A replay of a message after one of another hub. -/
theorem ingest_exact_replay :
    IngestedOnce ((ingesting 5000).exec (forgetful [])
      [servedCall 1 "east" "m-1", servedCall 2 "west" "m-1", servedCall 3 "east" "m-1"]).2 := by
  apply (ingest_exact_iff 5000 [] _ (by decide)).2
  apply unmixed_of_plain
  intro call hcall name hname
  simp only [List.mem_cons, List.not_mem_nil, or_false] at hcall
  rcases hcall with rfl | rfl | rfl
  · obtain rfl := Except.ok.inj (hname.symm.trans (by rfl : _ = Except.ok ("east", "m-1")))
    decide
  · obtain rfl := Except.ok.inj (hname.symm.trans (by rfl : _ = Except.ok ("west", "m-1")))
    decide
  · obtain rfl := Except.ok.inj (hname.symm.trans (by rfl : _ = Except.ok ("east", "m-1")))
    decide

/-- The message `b:c` of the hub `a` is taken for the message `c` of the hub `a:b`. -/
theorem ingest_mixed :
    ¬ IngestedOnce ((ingesting 5000).exec (forgetful [])
      [servedCall 1 "a:b" "c", servedCall 2 "a" "b:c"]).2 := by
  rw [ingestedOnce_exec 5000 [] (by decide), separate_iff]
  intro h
  have hpair := List.rel_of_pairwise_cons h List.mem_cons_self rfl (by rintro e ⟨⟩) ("a:b", "c")
    ("a", "b:c") rfl rfl
  exact hpair.2 ⟨"b", rfl, rfl⟩

end AgentHub.Sync
