import AgentHub.Checks
import AgentHub.CloudTokens.Map
import AgentHub.Json.Equiv.Pretty
import AgentHub.Json.Equiv.Sorted

/-!
# Correctness of the token map

A map that was read, and a map that has tokens more, is read back from the text it is written as
(`Proper.parse_text`); the metadata of a token is read as it was written (`ofValue_toValue`).  Each check
of the commands has a lemma that says what holds where it passes.
-/

namespace AgentHub.CloudTokens

open AgentHub.Json

variable {platform : Platform} {m : Manifest}

/-! ### Maps -/

/-- A map as a document holds it. -/
structure Proper (platform : Platform) (map : Fields) : Prop where
  sorted : map.Sorted
  fixed : ∀ entry ∈ map, document platform.doubles entry.2 = some entry.2
  shallow : ∀ entry ∈ map, entry.2.depth < maxDepth

theorem proper_nil : Proper platform [] where
  sorted := List.Pairwise.nil
  fixed := nofun
  shallow := nofun

theorem Proper.insert {map : Fields} (h : Proper platform map) (token : String) {value : Value}
    (hfixed : document platform.doubles value = some value) (hshallow : value.depth < maxDepth) :
    Proper platform (Fields.insert map token value) where
  sorted := h.sorted.insert token value
  fixed := by
    intro entry hentry
    rcases Fields.mem_insert hentry with rfl | hentry
    · exact hfixed
    · exact h.fixed entry hentry
  shallow := by
    intro entry hentry
    rcases Fields.mem_insert hentry with rfl | hentry
    · exact hshallow
    · exact h.shallow entry hentry

/-- What was read is such a map. -/
theorem proper_of_parse {text : List Char} {map : Fields}
    (h : parseTokenMap platform text = some map) : Proper platform map := by
  obtain ⟨v, hread, hobj⟩ := Option.bind_eq_some_iff.1 h
  obtain ⟨source, hsource, hdocument⟩ := Option.bind_eq_some_iff.1 hread
  -- reading bounds the depth, and the document is no deeper than its text
  have hdepth : v.depth ≤ maxDepth := by
    refine (document_depth hdocument).trans ?_
    cases hparse : fromStr text with
    | error e =>
      rw [hparse] at hsource
      cases hsource
    | ok source' =>
      rw [hparse] at hsource
      obtain rfl := Option.some.inj hsource
      exact fromStr_depth hparse
  -- a document read twice is the same, so its numbers are proper
  have hidem := document_idem hdocument
  cases v with
  | obj fields =>
    obtain rfl := Option.some.inj hobj
    rw [document, Option.map_eq_some_iff] at hidem
    obtain ⟨fields', hfields, heq⟩ := hidem
    have hpairs : Fields.ofPairs fields' = fields := Value.obj.inj heq
    rw [Value.depth, Nat.succ_le_iff] at hdepth
    refine ⟨hpairs ▸ Fields.sorted_ofPairs fields', ?_, ?_⟩
    · intro entry hentry
      rw [← hpairs] at hentry
      exact documentFields_idem hfields entry (Fields.mem_of_mem_ofPairs hentry)
    · intro entry hentry
      exact Nat.lt_of_le_of_lt ((depthFields_le_iff _ _).1 (Nat.le_refl _) entry hentry) hdepth
  | null | bool b | int n | float x | str s | arr items => cases hobj

/-- **The text of a map** is read back, with blanks behind it or none. -/
theorem Proper.parse_text {map : Fields} (h : Proper platform map) {blanks : List Char}
    (hblanks : ∀ c ∈ blanks, isBlank c = true) :
    parseTokenMap platform (pretty (.obj map) ++ blanks) = some map := by
  have hdepth : (Value.obj map).depth ≤ maxDepth := by
    have hle : Value.depthFields map ≤ 126 :=
      (depthFields_le_iff _ _).2 fun entry hentry => Nat.le_of_lt_succ (h.shallow entry hentry)
    exact Nat.succ_le_succ hle
  have hdocument : document platform.doubles (.obj map) = some (.obj map) := by
    rw [document, documentFields_of_fixed h.fixed, Option.map_some, h.sorted.ofPairs_eq]
  unfold parseTokenMap readDocument
  rw [fromStr_pretty hdepth hblanks]
  show (document platform.doubles (.obj map)).bind _ = _
  rw [hdocument]
  rfl

theorem Proper.get_of_mem {map : Fields} (h : Proper platform map) {entry : String × Value}
    (hentry : entry ∈ map) : Fields.get map entry.1 = some entry.2 :=
  lookup_of_mem h.sorted.keys_nodup hentry

/-! ### Metadata -/

/-- The fields of metadata, in their order. -/
def TokenMeta.slots (data : TokenMeta) : List (String × Option Value) :=
  [("agent", some (.str data.agent)), ("host", data.host.map .str), ("hub", data.hub.map .str),
    ("role", some (.str data.role))]

theorem TokenMeta.slots_nodup (data : TokenMeta) : (data.slots.map Prod.fst).Nodup := by
  show ["agent", "host", "hub", "role"].Nodup
  decide

theorem TokenMeta.mem_slots {data : TokenMeta} {entry : String × Value}
    (h : entry ∈ Fields.compact data.slots) : ∃ s, entry.2 = .str s := by
  obtain ⟨slot, hslot, hentry⟩ := List.mem_filterMap.1 h
  obtain ⟨v, hv, rfl⟩ := Option.map_eq_some_iff.1 hentry
  simp only [TokenMeta.slots, List.mem_cons, List.not_mem_nil, or_false] at hslot
  rcases hslot with rfl | rfl | rfl | rfl
  · exact ⟨data.agent, (Option.some.inj hv).symm⟩
  · obtain ⟨s, -, hs⟩ := Option.map_eq_some_iff.1 hv
    exact ⟨s, hs.symm⟩
  · obtain ⟨s, -, hs⟩ := Option.map_eq_some_iff.1 hv
    exact ⟨s, hs.symm⟩
  · exact ⟨data.role, (Option.some.inj hv).symm⟩

theorem TokenMeta.sorted_slots (data : TokenMeta) : (Fields.compact data.slots).Sorted := by
  have hkeys : (data.slots.map Prod.fst).Pairwise (· < ·) := by
    show ["agent", "host", "hub", "role"].Pairwise (· < ·)
    decide
  exact List.pairwise_map.1 (hkeys.sublist (present_keys_sublist data.slots))

theorem document_toValue (data : TokenMeta) :
    document platform.doubles data.toValue = some data.toValue := by
  have hfixed : ∀ entry ∈ Fields.compact data.slots,
      document platform.doubles entry.2 = some entry.2 := by
    intro entry hentry
    obtain ⟨s, hs⟩ := TokenMeta.mem_slots hentry
    rw [hs]
    rfl
  show document platform.doubles (.obj (Fields.compact data.slots)) = _
  rw [document, documentFields_of_fixed hfixed, Option.map_some, data.sorted_slots.ofPairs_eq]
  rfl

theorem depth_toValue (data : TokenMeta) : data.toValue.depth < maxDepth := by
  have hle : Value.depthFields (Fields.compact data.slots) ≤ 0 := by
    refine (depthFields_le_iff _ _).2 fun entry hentry => ?_
    obtain ⟨s, hs⟩ := TokenMeta.mem_slots hentry
    rw [hs]
    exact Nat.le_refl 0
  exact Nat.lt_of_le_of_lt (Nat.succ_le_succ hle) (by decide)

theorem optionalText_map (text : Option String) : optionalText (text.map .str) = some text := by
  cases text with
  | none => rfl
  | some s => rfl

/-- **Metadata** is read as it was written. -/
theorem ofValue_toValue (data : TokenMeta) : TokenMeta.ofValue data.toValue = some data := by
  have hget : ∀ k, Fields.get (Fields.compact data.slots) k = (data.slots.lookup k).join :=
    get_compact data.slots_nodup
  show TokenMeta.ofValue (.obj (Fields.compact data.slots)) = _
  unfold TokenMeta.ofValue
  dsimp only
  rw [hget, hget, hget, hget]
  simp [TokenMeta.slots, List.lookup_cons, Value.asStr, optionalText_map]

/-! ### Checks -/

theorem require_ok {holds : Bool} {message : String} {u : Unit} (h : require holds message = .ok u) :
    holds = true := by
  unfold require at h
  split at h
  · assumption
  · cases h

/-- The files of the tool are apart. -/
theorem apart_of_validate {storage : Storage} (h : validateStoragePaths platform storage = .ok ()) :
    ∃ pending, pendingClientPath platform storage.clientTokenPath = .ok pending ∧
      platform.place storage.tokensMapPath ≠ platform.place storage.clientTokenPath ∧
      platform.place storage.tokensMapPath ≠ platform.place pending ∧
      platform.place storage.clientTokenPath ≠ platform.place pending := by
  unfold validateStoragePaths at h
  obtain ⟨-, h⟩ := check_bind_eq_ok.1 h
  obtain ⟨-, h⟩ := check_bind_eq_ok.1 h
  obtain ⟨pending, hpending, h⟩ := bind_eq_ok.1 h
  refine ⟨pending, hpending, ?_⟩
  have hapart := require_ok h
  simp only [Bool.and_eq_true, decide_eq_true_eq] at hapart
  exact ⟨hapart.1.1, hapart.1.2, hapart.2⟩

/-- The baseline is apart from the files of the tool. -/
theorem apart_of_baseline {baseline : Path}
    (h : requireDistinctBaseline platform m baseline = .ok ()) :
    ∃ pending, pendingClientPath platform m.storage.clientTokenPath = .ok pending ∧
      platform.place baseline ≠ platform.place m.storage.tokensMapPath ∧
      platform.place baseline ≠ platform.place m.storage.clientTokenPath ∧
      platform.place baseline ≠ platform.place pending := by
  obtain ⟨pending, hpending, h⟩ := bind_eq_ok.1 h
  have hall := require_ok h
  simp only [List.all_cons, List.all_nil, Bool.and_true, Bool.and_eq_true, decide_eq_true_eq] at hall
  exact ⟨pending, hpending, hall⟩

theorem readTokenMap_ok {text : String} {map : Fields}
    (h : readTokenMap platform text = .ok map) :
    parseTokenMap platform text.toList = some map ∧ validateTokenMap map = .ok () := by
  unfold readTokenMap at h
  cases hparse : parseTokenMap platform text.toList with
  | none =>
    rw [hparse] at h
    cases h
  | some read =>
    rw [hparse] at h
    obtain ⟨hvalid, hread⟩ := check_bind_eq_ok.1 h
    obtain rfl := Except.ok.inj hread
    exact ⟨rfl, hvalid⟩

/-- A token of a map that was read has no blanks. -/
theorem unblank_of_validate {map : Fields} (h : validateTokenMap map = .ok ())
    {entry : String × Value} (hentry : entry ∈ map) :
    ∀ c ∈ entry.1.toList, Text.isWhitespace c = false := by
  unfold validateTokenMap at h
  split at h
  · cases h
  · have hvalid := forM_eq_ok.1 h entry hentry
    unfold validateEntry at hvalid
    split at hvalid
    · cases hvalid
    · next hnot =>
      intro c hc
      rw [Bool.eq_false_iff]
      intro hblank
      exact hnot (by simp only [Bool.or_eq_true, List.any_eq_true]; exact Or.inr ⟨c, hc, hblank⟩)

/-- **What `preserves` says.** -/
theorem get_of_preserves {baseline candidate : Fields} (h : preserves baseline candidate = true)
    {token : String} {value : Value} (hget : Fields.get baseline token = some value) :
    ∃ v, Fields.get candidate token = some v ∧ same v value = true := by
  have hentry := List.all_eq_true.1 h (token, value) (mem_of_get hget)
  exact (Option.any_eq_true _ _).1 hentry

theorem mem_clientTokens {storage : Storage} {map : Fields} {tokens : List String}
    (h : clientTokens storage map = .ok tokens) {token : String} (htoken : token ∈ tokens) :
    ∃ value data, (token, value) ∈ map ∧ TokenMeta.ofValue value = some data ∧
      data.isClient storage = true := by
  induction map generalizing tokens with
  | nil =>
    obtain rfl := Except.ok.inj h
    cases htoken
  | cons entry map ih =>
    obtain ⟨key, value⟩ := entry
    rw [clientTokens] at h
    cases hdata : TokenMeta.ofValue value with
    | none =>
      rw [hdata] at h
      cases h
    | some data =>
      rw [hdata] at h
      obtain ⟨rest, hrest, h⟩ := bind_eq_ok.1 h
      obtain rfl := Except.ok.inj h
      have htail : token ∈ rest → ∃ w data, (token, w) ∈ (key, value) :: map ∧
          TokenMeta.ofValue w = some data ∧ data.isClient storage = true := by
        intro hmem
        obtain ⟨w, data', hentry, hread⟩ := ih hrest hmem
        exact ⟨w, data', List.mem_cons_of_mem _ hentry, hread⟩
      -- the entry's own token, or one further on
      split at htoken
      · next hclient =>
        rcases List.mem_cons.1 htoken with rfl | htoken
        · exact ⟨value, data, List.mem_cons_self, hdata, hclient⟩
        · exact htail htoken
      · exact htail htoken

/-- **The token that is chosen** is one of the client. -/
theorem chooseClient_ok {storage : Storage} {map : Fields} {current : Option String} {token : String}
    (h : chooseClient platform storage map current = .ok token) :
    ∃ value data, (token, value) ∈ map ∧ TokenMeta.ofValue value = some data ∧
      data.isClient storage = true := by
  obtain ⟨tokens, htokens, h⟩ := bind_eq_ok.1 h
  refine mem_clientTokens htokens ?_
  split at h
  · next found hfound =>
    obtain rfl := Except.ok.inj h
    exact List.mem_of_find?_eq_some hfound
  · obtain rfl := Except.ok.inj h
    exact List.mem_singleton_self _
  · cases h
  · cases h

end AgentHub.CloudTokens
