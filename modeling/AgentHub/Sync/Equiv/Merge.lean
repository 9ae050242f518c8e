import AgentHub.Channels.Equiv.Reader
import AgentHub.Sync.Merge

/-!
# A pulled presence masks no newer one

What the program asks the script to write was decided on the very text the script compares with
(`applySyncedPresence_justified`), and that does not depend on what happens in between.  So in every
interleaving a write puts a later timestamp in the place of an earlier one
(`applySyncedPresence_unmasked`).
-/

namespace AgentHub.Sync

open AgentHub.Json AgentHub.Hub Program
open AgentHub.Validation (AgentBusError)

variable {lib : PresenceLibrary}

/-! ### The decision -/

theorem ediv_le_numSeconds (nanos : Int) : nanos / 1000000000 ≤ numSeconds nanos := by
  have hsign : (1000000000 : Int).sign = 1 := rfl
  unfold numSeconds
  rw [Int.tdiv_eq_ediv, hsign]
  split_ifs <;> omega

/-- What a decision to store a row rests on. -/
structure Decided (lib : PresenceLibrary) (pull : PresencePull) (stored : Option Presence)
    (ttl : Nat) : Prop where
  foreign : presenceOrigin pull.presence ≠ some pull.localHub
  fresh : ∃ sent, parseTimestampUtc lib pull.presence.timestampUtc = .ok sent ∧ 0 < ttl ∧
    (ttl : Int) ≤ pull.presence.ttlSeconds - max 0 ((pull.now - sent) / 1000000000) ∧
    ∀ row, stored = some row → ∀ t, parseTimestampUtc lib row.timestampUtc = .ok t → t < sent

theorem syncedPresenceTtl_decided {pull : PresencePull} {stored : Option Presence} {ttl : Nat}
    (h : syncedPresenceTtl lib pull.presence stored pull.localHub pull.now = .ok (some ttl)) :
    Decided lib pull stored ttl := by
  unfold syncedPresenceTtl at h
  split_ifs at h with horigin
  · cases h
  cases hsent : parseTimestampUtc lib pull.presence.timestampUtc with
  | error e =>
    rw [hsent] at h
    cases h
  | ok sent =>
    rw [hsent] at h
    change (if _ then _ else _) = Except.ok (some ttl) at h
    split_ifs at h with hexpired hnewer
    · cases h
    · cases h
    · obtain rfl := Option.some.inj (Except.ok.inj h)
      have hage := ediv_le_numSeconds (pull.now - sent)
      refine ⟨horigin, sent, hsent, by omega, ?_, ?_⟩
      · unfold clampI64 at *
        omega
      · rintro row rfl t ht
        by_contra hge
        refine hnewer ?_
        rw [Option.any_some, ht]
        exact decide_eq_true (Int.not_lt.1 hge)

/-! ### The program -/

/-- A write is asked for on a decision about the text it is to replace. -/
def Justified (lib : PresenceLibrary) (pull : PresencePull) : PresenceCommand → Prop
  | .get _ => True
  | .compareAndSet key expected json ttl => key = pull.key ∧ json = presenceText pull.presence ∧
      Decided lib pull (expected.bind lib.readPresence) ttl

/-- Every write is justified, whatever the replies are. -/
def justifying (lib : PresenceLibrary) (pull : PresencePull) :
    Discipline PresenceCommand PresenceCommand.Reply Unit where
  allows _ c := Justified lib pull c
  after _ _ _ := ()

theorem mergeAttempts_justified (pull : PresencePull) (attempts : Nat) :
    (mergeAttempts lib pull attempts).Obeys (justifying lib pull) (fun _ _ => True) () := by
  induction attempts with
  | zero => trivial
  | succ attempts ih =>
    refine obeys_perform_bind trivial fun existing => ?_
    refine obeys_check_bind fun decision hdecision => ?_
    cases decision with
    | none => trivial
    | some ttl =>
      refine obeys_perform_bind ⟨rfl, rfl, syncedPresenceTtl_decided hdecision⟩ fun written => ?_
      cases written with
      | true => trivial
      | false => exact ih

theorem applySyncedPresence_justified (pull : PresencePull) :
    (applySyncedPresence lib pull).Obeys (justifying lib pull) (fun _ _ => True) () :=
  mergeAttempts_justified pull presenceCasMaxAttempts

/-! ### The script -/

/-- The time of the presence that is stored under a key. -/
def storedAt (lib : PresenceLibrary) (store : PresenceStore) (key : String) : Option Int := do
  let row ← (store.find key).bind lib.readPresence
  (parseTimestampUtc lib row.timestampUtc).toOption

/-- What a command of a pull does to the rows. -/
structure Unmasked (lib : PresenceLibrary) (made : Made PresenceCommand PresencePull PresenceStore) :
    Prop where
  /-- No time goes back. -/
  newer : ∀ key t, storedAt lib made.before key = some t →
    ∃ t', storedAt lib made.after key = some t' ∧ t ≤ t'
  /-- A row of this hub is not written. -/
  foreign : presenceOrigin made.tag.presence = some made.tag.localHub → made.after = made.before
  /-- What is written is the pulled row, for what is left of its lifetime; a row of the future has all
  of it. -/
  fresh : made.after = made.before ∨ ∃ ttl sent,
    parseTimestampUtc lib made.tag.presence.timestampUtc = .ok sent ∧
    made.after = made.before.setEx made.tag.key (presenceText made.tag.presence) ttl ∧ 0 < ttl ∧
    (ttl : Int) ≤ made.tag.presence.ttlSeconds - max 0 ((made.tag.now - sent) / 1000000000)

theorem unmasked_of_unchanged {tag : PresencePull} {c : PresenceCommand} {store : PresenceStore} :
    Unmasked lib ⟨tag, c, store, store⟩ :=
  ⟨fun _ t ht => ⟨t, ht, le_refl t⟩, fun _ => rfl, .inl rfl⟩

theorem find_setEx (store : PresenceStore) (key text : String) (ttl : Nat) (other : String) :
    (store.setEx key text ttl).find other = if other = key then some text else store.find other := by
  show readKey (Function.update store.rows key _ other) store.clock = _
  by_cases h : other = key
  · rw [if_pos h, h, Function.update_self]
    simp [readKey]
  · rw [if_neg h, Function.update_of_ne h]
    rfl

theorem execute_compareAndSet {store : PresenceStore} {key json : String} {expected : Option String}
    {ttl : Nat} (hfind : store.find key = expected) (haccepts : store.accepts ttl = true) :
    (store.execute (.compareAndSet key expected json ttl)).1 = store.setEx key json ttl := by
  unfold PresenceStore.execute
  dsimp only
  rw [if_neg (not_not.2 hfind), if_pos haccepts]

/-- The script stores a later time in the place of an earlier one. -/
theorem Decided.unmasked {pull : PresencePull} {store : PresenceStore} {expected : Option String}
    {ttl : Nat} (h : Decided lib pull (expected.bind lib.readPresence) ttl)
    (hfind : store.find pull.key = expected) {c : PresenceCommand} :
    Unmasked lib ⟨pull, c, store, store.setEx pull.key (presenceText pull.presence) ttl⟩ := by
  obtain ⟨sent, hsent, hpos, hle, hearlier⟩ := h.fresh
  refine ⟨fun key t ht => ?_, fun horigin => absurd horigin h.foreign,
    .inr ⟨ttl, sent, hsent, rfl, hpos, hle⟩⟩
  obtain ⟨row, hrow, hts⟩ := Option.bind_eq_some_iff.1 ht
  -- only the pulled key changes, and its new row is no earlier than the old
  by_cases hkey : key = pull.key
  · subst hkey
    obtain ⟨written, hwritten, htext⟩ := Option.map_eq_some_iff.1
      (lib.readPresence_text pull.presence pull.depth_le pull.ttl_lt)
    refine ⟨sent, ?_, ?_⟩
    · refine Option.bind_eq_some_iff.2 ⟨written, ?_, ?_⟩
      · rw [find_setEx, if_pos rfl]
        exact hwritten
      · rw [htext, hsent]
        rfl
    · change (store.find pull.key).bind lib.readPresence = some row at hrow
      rw [hfind] at hrow
      cases hparse : parseTimestampUtc lib row.timestampUtc with
      | error e =>
        rw [hparse] at hts
        cases hts
      | ok u =>
        rw [hparse] at hts
        obtain rfl : u = t := Option.some.inj hts
        exact (hearlier row hrow u hparse).le
  · -- every other key keeps its row
    refine ⟨t, ?_, le_refl t⟩
    unfold storedAt
    rw [find_setEx, if_neg hkey]
    exact ht

theorem serve_unmasked {pull : PresencePull} {c : PresenceCommand} (h : Justified lib pull c)
    (fate : PresenceStore.Fate) (store : PresenceStore) :
    Unmasked lib ⟨pull, c, store, (PresenceStore.serve c fate store).1⟩ := by
  have hexecute : Unmasked lib ⟨pull, c, store, (store.execute c).1⟩ := by
    cases c with
    | get key => exact unmasked_of_unchanged
    | compareAndSet key expected json ttl =>
      obtain ⟨rfl, rfl, hdecided⟩ := h
      unfold PresenceStore.execute
      dsimp only
      split_ifs with hfind haccepts
      · exact unmasked_of_unchanged
      · exact hdecided.unmasked (not_not.1 hfind)
      · exact unmasked_of_unchanged
  cases fate with
  | served => exact hexecute
  | refused => exact unmasked_of_unchanged
  | replyLost => exact hexecute

/-- **No pull masks a newer presence**, in every interleaving of pulls with each other, with local
announcements and with the passing of time. -/
theorem applySyncedPresence_unmasked (lib : PresenceLibrary) (store : PresenceStore)
    (inputs : List (PoolInput PresencePull PresenceStore.Fate PresenceStore.Change)) :
    ∀ made ∈ ((merges lib).machine.exec ⟨store, []⟩ inputs).2, Unmasked lib made := by
  refine Pool.Runtime.machine_of_obeys (D := justifying lib)
    applySyncedPresence_justified ?_ inputs store
  intro pull _ c fate before hallowed
  exact serve_unmasked hallowed fate before

/-! ### A library for concrete runs -/

/-- `serde_json::from_value::<Presence>` of an object. -/
def presenceOfValue (v : Value) : Option Presence := do
  let text (name : String) : Option String := (v.field? name).bind Value.asStr
  let agent ← text "agent"
  let status ← text "status"
  let protocolVersion ← text "protocol_version"
  let timestampUtc ← text "timestamp_utc"
  let sessionId ← text "session_id"
  let capabilities ← readDefault readTexts [] (v.field? "capabilities")
  let ttlSeconds ← (v.field? "ttl_seconds").bind Value.asU64
  return {
    agent, status, protocolVersion, timestampUtc, sessionId, capabilities, ttlSeconds
    metadata := (v.field? "metadata").getD .null }

theorem asU64_natCast {n : Nat} (h : n < 2 ^ 64) : Value.asU64 (.int n) = some n := by
  simp only [Value.asU64]
  rw [if_pos ⟨by omega, by exact_mod_cast h⟩]
  simp

theorem presenceOfValue_value {presence : Presence} (h : presence.ttlSeconds < 2 ^ 64) :
    presenceOfValue (presenceValue presence) = some presence := by
  have httl := asU64_natCast h
  have htexts : readTexts (.arr (presence.capabilities.map .str)) = some presence.capabilities := by
    simp [readTexts, Value.asArray, mapM_asStr, -List.mapM_map]
  unfold presenceOfValue
  refine (Channels.bind_of_some rfl).trans ?_
  refine (Channels.bind_of_some rfl).trans ?_
  refine (Channels.bind_of_some rfl).trans ?_
  refine (Channels.bind_of_some rfl).trans ?_
  refine (Channels.bind_of_some rfl).trans ?_
  refine (Channels.bind_of_some htexts).trans ?_
  have hfield : (presenceValue presence).field? "ttl_seconds" =
      some (.int presence.ttlSeconds) := rfl
  rw [hfield, Option.bind_some, httl]
  rfl

/-- `serde_json::from_str::<Presence>` of an object. -/
def readPresenceText (text : String) : Option Presence :=
  (fromStr text.toList).toOption.bind presenceOfValue

/-- Times with six digits and the offset that stands for the `Z`. -/
def nanosOfOffsetText (text : String) : Except String Int :=
  match Channels.nanosOfText (String.ofList (text.toList.take 26 ++ ['Z'])) with
  | some t => if text.toList.drop 26 = "+00:00".toList then .ok t else .error "trailing input"
  | none => .error "premature end of input"

theorem readPresenceText_text {presence : Presence}
    (hdepth : (presenceValue presence).depth ≤ maxDepth) (httl : presence.ttlSeconds < 2 ^ 64) :
    readPresenceText (presenceText presence) = some presence := by
  have hok : ∀ v : Value, (Except.ok v : Except ParseError Value).toOption = some v := fun _ => rfl
  unfold readPresenceText presenceText jsonText
  rw [String.toList_ofList, fromStr_print _ hdepth, hok, Option.bind_some,
    presenceOfValue_value httl]

def samplePresences : PresenceLibrary where
  parseRfc3339 := nanosOfOffsetText
  readPresence := readPresenceText
  readPresence_text _ hdepth httl := by rw [readPresenceText_text hdepth httl, Option.map_some]

/-- A row that lives for five minutes. -/
def pulledPresence : Presence where
  agent := "alice"
  status := "online"
  protocolVersion := "1.0"
  timestampUtc := "2026-01-01T00:00:00.000000Z"
  sessionId := "s"
  capabilities := []
  metadata := .obj [("origin_hub", .str "cloud")]
  ttlSeconds := 300

theorem pulledPresence_depth : (presenceValue pulledPresence).depth ≤ maxDepth := by decide

theorem pulledPresence_ttl : pulledPresence.ttlSeconds < 2 ^ 64 := by decide

/-- It is pulled when it is half a second old. -/
def samplePull : PresencePull where
  presence := pulledPresence
  depth_le := pulledPresence_depth
  ttl_lt := pulledPresence_ttl
  presencePrefix := "presence:"
  localHub := "desk"
  now := 1767225600500000000

/-- The commands of an attempt whose decision is to store. -/
theorem mergeAttempts_succ (lib : PresenceLibrary) (pull : PresencePull) (attempts : Nat) :
    ∃ next, mergeAttempts lib pull (attempts + 1) = .call (.get pull.key) next ∧
      ∀ existing ttl, syncedPresenceTtl lib pull.presence (existing.bind lib.readPresence)
          pull.localHub pull.now = .ok (some ttl) →
        ∃ next', next existing =
          .call (.compareAndSet pull.key existing (presenceText pull.presence) ttl) next' := by
  refine ⟨_, rfl, fun existing ttl hdecision => ?_⟩
  show ∃ next', (check (syncedPresenceTtl lib pull.presence (existing.bind lib.readPresence)
    pull.localHub pull.now) >>= _) = _
  rw [hdecision]
  exact ⟨_, rfl⟩

def noPresences : PresenceStore := ⟨fun _ => none, 0⟩

/-- The script of the pull, which stores the row for five minutes. -/
def storedPull : Made PresenceCommand PresencePull PresenceStore :=
  ⟨samplePull, .compareAndSet samplePull.key none (presenceText pulledPresence) 300, noPresences,
    noPresences.setEx samplePull.key (presenceText pulledPresence) 300⟩

/-- The commands of the pull. -/
theorem samplePull_run : ((merges samplePresences).machine.exec ⟨noPresences, []⟩
    [.begin samplePull, .advance 0 .served, .advance 0 .served]).2 =
      [⟨samplePull, .get samplePull.key, noPresences, noPresences⟩, storedPull] := by
  have httl : syncedPresenceTtl samplePresences samplePull.presence none samplePull.localHub
      samplePull.now = .ok (some 300) := by
    rfl
  -- the two commands of the pull, unrolled from its retry loop once
  obtain ⟨next, hget, hset⟩ := mergeAttempts_succ samplePresences samplePull 7
  obtain ⟨next', hnext⟩ := hset none 300 httl
  have hroute : applySyncedPresence samplePresences samplePull = .call (.get samplePull.key) next :=
    hget
  have hbegin : (merges samplePresences).step ⟨noPresences, []⟩ (.begin samplePull) =
      (⟨noPresences, [⟨samplePull, [], .call (.get samplePull.key) next⟩]⟩, []) := by
    rw [← hroute]
    rfl
  have hfirst : (merges samplePresences).step
      ⟨noPresences, [⟨samplePull, [], .call (.get samplePull.key) next⟩]⟩ (.advance 0 .served) =
      (⟨noPresences, [⟨samplePull, [.get samplePull.key], next none⟩]⟩,
        [⟨samplePull, .get samplePull.key, noPresences, noPresences⟩]) := rfl
  have hlast : ((merges samplePresences).step
      ⟨noPresences, [⟨samplePull, [.get samplePull.key], next none⟩]⟩ (.advance 0 .served)).2 =
      [⟨samplePull, .compareAndSet samplePull.key none (presenceText pulledPresence) 300,
        noPresences, (noPresences.execute
          (.compareAndSet samplePull.key none (presenceText pulledPresence) 300)).1⟩] := by
    rw [hnext]
    rfl
  have hfind : noPresences.find samplePull.key = none := rfl
  have haccepts : noPresences.accepts 300 = true := by decide
  rw [execute_compareAndSet hfind haccepts] at hlast
  rw [Machine.exec_cons, Machine.exec_cons, Machine.exec_cons, Machine.exec_nil]
  simp only [Pool.Runtime.machine, hbegin, hfirst, hlast, List.nil_append, List.append_nil,
    List.singleton_append, storedPull]

theorem applySyncedPresence_unmasked_samplePull : Unmasked samplePresences storedPull := by
  refine applySyncedPresence_unmasked samplePresences noPresences
    [.begin samplePull, .advance 0 .served, .advance 0 .served] storedPull ?_
  rw [samplePull_run]
  exact List.mem_cons_of_mem _ List.mem_cons_self

/-- It is stored for five minutes more. -/
theorem applySyncedPresence_overstays :
    ∃ made ∈ ((merges samplePresences).machine.exec ⟨⟨fun _ => none, 0⟩, []⟩
        [.begin samplePull, .advance 0 .served, .advance 0 .served]).2,
      made.after = made.before.setEx made.tag.key (presenceText made.tag.presence) 300 ∧
        made.after.find made.tag.key ≠ made.before.find made.tag.key ∧
        ∃ sent, parseTimestampUtc samplePresences made.tag.presence.timestampUtc = .ok sent ∧
          made.tag.presence.ttlSeconds * 1000000000 - (made.tag.now - sent) < 300 * 1000000000 := by
  have hsent : parseTimestampUtc samplePresences pulledPresence.timestampUtc =
      .ok 1767225600000000000 := by
    rfl
  have hmem : storedPull ∈ ((merges samplePresences).machine.exec ⟨noPresences, []⟩
      [.begin samplePull, .advance 0 .served, .advance 0 .served]).2 := by
    rw [samplePull_run]
    exact List.mem_cons_of_mem _ List.mem_cons_self
  refine ⟨storedPull, hmem, rfl, ?_, _, hsent, by decide⟩
  show (noPresences.setEx samplePull.key (presenceText pulledPresence) 300).find samplePull.key ≠
    noPresences.find samplePull.key
  rw [find_setEx, if_pos rfl]
  exact Option.some_ne_none _

end AgentHub.Sync
