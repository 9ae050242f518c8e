import AgentHub.Cloud.Auth
import AgentHub.Cloud.Equiv.Js
import AgentHub.CloudTokens.Equiv.Map
import AgentHub.Json.Equiv.Utf8

/-!
# What the Worker makes of a token map

Of a token map that the tool reads and sends, the Worker accepts the entries that are `Admitted`, and it
resolves a bearer token to what its own entry says: `authenticate_iff`.  The entries the tool mints are
all admitted (`admitted_minted`); but the tool keeps entries that are not, and with one of those the
Worker does not know the map as it stands (`map_known_iff`).
-/

namespace AgentHub.Cloud

open AgentHub.Json AgentHub.CloudTokens

/-! ### The comparison -/

theorem eq_of_xor_eq_zero {a b : Nat} (h : a ^^^ b = 0) : a = b :=
  calc a = a ^^^ (b ^^^ b) := by rw [Nat.xor_self, Nat.xor_zero]
    _ = (a ^^^ b) ^^^ b := (Nat.xor_assoc ..).symm
    _ = b := by rw [h, Nat.zero_xor]

theorem foldl_or_eq_zero {α : Type} (f : α → Nat) (l : List α) (d : Nat) :
    l.foldl (fun diff a => diff ||| f a) d = 0 ↔ d = 0 ∧ ∀ a ∈ l, f a = 0 := by
  induction l generalizing d with
  | nil => simp
  | cons a l ih => rw [List.foldl_cons, ih, Nat.or_eq_zero_iff, List.forall_mem_cons, and_assoc]

/-- **The comparison** is equality. -/
theorem timingSafeEqual_iff {a b : String} : timingSafeEqual a b = true ↔ a = b := by
  rw [timingSafeEqual, beq_iff_eq, foldl_or_eq_zero]
  constructor
  · rintro ⟨hlengths, hbytes⟩
    have hlength := eq_of_xor_eq_zero hlengths
    have hutf8 : utf8 a.toList = utf8 b.toList := by
      apply List.ext_getElem hlength
      intro i ha hb
      have hi : i ∈ List.range (max (utf8 a.toList).length (utf8 b.toList).length) := by
        rw [List.mem_range]
        omega
      have hbyte := eq_of_xor_eq_zero (hbytes i hi)
      rw [List.getD_eq_getElem?_getD, List.getD_eq_getElem?_getD, List.getElem?_eq_getElem ha,
        List.getElem?_eq_getElem hb] at hbyte
      exact UInt8.toNat_inj.1 hbyte
    exact String.toList_injective (utf8_injective hutf8)
  · rintro rfl
    exact ⟨Nat.xor_self _, fun i _ => Nat.xor_self _⟩

/-! ### The secret -/

/-- The secret that `cmd_upload` hands to `wrangler`. -/
def secretText (map : Fields) : String := String.ofList (print (.obj map))

theorem length_printItems_of_mem {v : Value} {items : List Value} (h : v ∈ items) :
    (print v).length ≤ (printItems items).length := by
  induction items with
  | nil => cases h
  | cons w items ih =>
    cases items with
    | nil => rw [List.mem_singleton.1 h, printItems]
    | cons w' items =>
      rw [printItems, List.length_append, List.length_cons]
      rcases List.mem_cons.1 h with rfl | h
      · omega
      · have hle := ih h
        omega

theorem length_printFields_of_mem {kv : String × Value} {fields : Fields} (h : kv ∈ fields) :
    (print kv.2).length ≤ (printFields fields).length := by
  induction fields with
  | nil => cases h
  | cons kw fields ih =>
    obtain ⟨k, w⟩ := kw
    cases fields with
    | nil =>
      obtain rfl := List.mem_singleton.1 h
      rw [printFields, List.length_append, List.length_cons]
      dsimp only
      omega
    | cons kw' fields =>
      rw [printFields, List.length_append, List.length_cons, List.length_append, List.length_cons]
      rcases List.mem_cons.1 h with rfl | h
      · dsimp only
        omega
      · have hle := ih h
        omega

/-- No document is nested deeper than its text is long. -/
theorem depth_le_length (v : Value) : v.depth ≤ (print v).length := by
  match v with
  | .null | .bool _ | .int _ | .float _ | .str _ => exact Nat.zero_le _
  | .arr items =>
    have hitems : ∀ w ∈ items, w.depth ≤ (printItems items).length := fun w hw =>
      (depth_le_length w).trans (length_printItems_of_mem hw)
    have hdepth : Value.depthItems items ≤ (printItems items).length :=
      (depthItems_le_iff _ _).2 hitems
    rw [Value.depth, print, List.length_cons, List.length_append]
    omega
  | .obj fields =>
    have hfields : ∀ kw ∈ fields, kw.2.depth ≤ (printFields fields).length := fun kw hkw =>
      (depth_le_length kw.2).trans (length_printFields_of_mem hkw)
    have hdepth : Value.depthFields fields ≤ (printFields fields).length :=
      (depthFields_le_iff _ _).2 hfields
    rw [Value.depth, print, List.length_cons, List.length_append]
    omega
termination_by sizeOf v
decreasing_by
  · have hlt := List.sizeOf_lt_of_mem hw
    simp only [Value.arr.sizeOf_spec]
    omega
  · have hlt := List.sizeOf_lt_of_mem hkw
    have hpair : sizeOf kw = 1 + sizeOf kw.1 + sizeOf kw.2 := Prod.mk.sizeOf_spec kw.1 kw.2
    simp only [Value.obj.sizeOf_spec]
    omega

variable {numbers : Js.Numbers}

theorem jsonParse_print (v : Value) :
    jsonParse numbers (String.ofList (print v)) = some (Js.parse numbers v) := by
  have hread := parseValue_print _ v (depth_le_length v) [] delimited_nil
  rw [List.append_nil] at hread
  rw [jsonParse, String.toList_ofList, hread]
  rfl

/-! ### Entries -/

/-- An entry that the Worker accepts: its token is long enough in UTF-16, and its metadata is an object
with no other names and no null. -/
structure Admitted (token : String) (value : Value) : Prop where
  long : minTokenLen ≤ Js.length token
  plain : ∃ fields, value = .obj fields ∧ (∀ kv ∈ fields, kv.1 ∈ validEntryKeys) ∧
    Fields.get fields "host" ≠ some .null ∧ Fields.get fields "hub" ≠ some .null

/-- The identity is the one that the metadata names. -/
structure Speaks (data : TokenMeta) (identity : Identity) : Prop where
  agent : identity.agent = data.agent
  host : identity.host = named data.host
  role : Role.ofText data.role = some identity.role
  hub : identity.hub = if identity.role = .hub then data.hub else none

theorem Speaks.unique {data : TokenMeta} {a b : Identity} (ha : Speaks data a) (hb : Speaks data b) :
    a = b := by
  have hagent : a.agent = b.agent := ha.agent.trans hb.agent.symm
  have hhost : a.host = b.host := ha.host.trans hb.host.symm
  have hrole : a.role = b.role := Option.some.inj (ha.role.symm.trans hb.role)
  have hhub : a.hub = b.hub := by rw [ha.hub, hb.hub, hrole]
  obtain ⟨agent, host, role, hub⟩ := a
  obtain ⟨agent', host', role', hub'⟩ := b
  obtain rfl : agent = agent' := hagent
  obtain rfl : host = host' := hhost
  obtain rfl : role = role' := hrole
  obtain rfl : hub = hub' := hhub
  rfl

/-- A text of the metadata as the Worker reads it. -/
theorem optionalString_parse {v : Option Value} {text : Option String}
    (h : optionalText v = some text) (hnull : v ≠ some .null) :
    optionalString (v.map (Js.parse numbers)) = some text := by
  unfold optionalText at h
  split at h
  · exact h
  · exact absurd rfl hnull
  · exact h
  · cases h

theorem optionalText_of_parse {v : Option Value} {text : Option String}
    (h : optionalString (v.map (Js.parse numbers)) = some text) : v ≠ some .null := by
  rintro rfl
  cases h

/-- What the tool makes sure of. -/
theorem validateEntry_ok {token : String} {value : Value}
    (h : validateEntry (token, value) = .ok ()) :
    ∃ data, TokenMeta.ofValue value = some data ∧ data.agent ≠ "" ∧ isRole data.role = true ∧
      (data.role = "hub" → ∃ name, data.hub = some name ∧ name ≠ "") := by
  unfold validateEntry at h
  split at h
  · cases h
  · cases hdata : TokenMeta.ofValue value with
    | none =>
      rw [hdata] at h
      cases h
    | some data =>
      rw [hdata] at h
      dsimp only at h
      split at h
      · cases h
      · -- the three bounds of the check, one by one
        next hbound =>
        simp only [Bool.or_eq_true, Bool.and_eq_true, Bool.not_eq_true', not_or, not_and,
          decide_eq_true_eq, Bool.not_eq_false, String.isEmpty_iff] at hbound
        refine ⟨data, rfl, hbound.1.1, hbound.1.2, fun hrole => ?_⟩
        have hne := hbound.2 hrole
        cases hhub : data.hub with
        | none =>
          rw [hhub] at hne
          exact absurd rfl hne
        | some name =>
          rw [hhub] at hne
          exact ⟨name, rfl, hne⟩

theorem ofText_of_isRole {role : String} (h : isRole role = true) :
    ∃ r, Role.ofText role = some r ∧ (r = .hub ↔ role = "hub") := by
  have hrole : role = "agent" ∨ role = "hub" ∨ role = "operator" := by
    simpa [isRole, or_assoc] using h
  rcases hrole with rfl | rfl | rfl
  · exact ⟨.agent, rfl, by decide⟩
  · exact ⟨.hub, rfl, by decide⟩
  · exact ⟨.operator, rfl, by decide⟩

/-- What the metadata in an object is. -/
theorem ofValue_obj {fields : Fields} {data : TokenMeta}
    (h : TokenMeta.ofValue (.obj fields) = some data) :
    Fields.get fields "agent" = some (.str data.agent) ∧
      Fields.get fields "role" = some (.str data.role) ∧
      optionalText (Fields.get fields "host") = some data.host ∧
      optionalText (Fields.get fields "hub") = some data.hub := by
  have hstr : ∀ {v : Option Value} {s : String}, v.bind Value.asStr = some s → v = some (.str s) := by
    intro v s hv
    obtain ⟨w, rfl, hw⟩ := Option.bind_eq_some_iff.1 hv
    cases w with
    | str t => rw [Option.some.inj hw]
    | null | bool b | int n | float x | arr items | obj fields => cases hw
  obtain ⟨agent, hagent, h⟩ := Option.bind_eq_some_iff.1 h
  obtain ⟨role, hrole, h⟩ := Option.bind_eq_some_iff.1 h
  obtain ⟨host, hhost, h⟩ := Option.bind_eq_some_iff.1 h
  obtain ⟨hub, hhub, h⟩ := Option.bind_eq_some_iff.1 h
  obtain rfl := Option.some.inj h
  exact ⟨hstr hagent, hstr hrole, hhost, hhub⟩

theorem parse_sorted {fields : Fields} (h : fields.Sorted) :
    Js.parse numbers (.obj fields) = .obj (Js.parseFields numbers fields) := by
  have hkeys : (([] ++ Js.parseFields numbers fields : Fields).map Prod.fst).Nodup := by
    rw [List.nil_append, Js.parseFields_keys]
    exact h.keys_nodup
  rw [Js.parse, Js.foldl_setProperty hkeys, List.nil_append]

theorem all_keys_iff {fields : Fields} :
    (Js.parseFields numbers fields).all (fun kv => validEntryKeys.contains kv.1) = true ↔
      ∀ kv ∈ fields, kv.1 ∈ validEntryKeys := by
  have hmap : (Js.parseFields numbers fields).all (fun kv => validEntryKeys.contains kv.1) =
      ((Js.parseFields numbers fields).map Prod.fst).all validEntryKeys.contains := by
    rw [List.all_map]
    rfl
  rw [hmap, Js.parseFields_keys, List.all_map, List.all_eq_true]
  exact forall₂_congr fun kv _ => List.contains_iff_mem

/-- **An entry with nothing else in it** is accepted for what it says. -/
theorem validEntry_of_plain {token : String} {fields : Fields} {data : TokenMeta}
    (hvalid : validateEntry (token, .obj fields) = .ok ()) (hsorted : fields.Sorted)
    (hdata : TokenMeta.ofValue (.obj fields) = some data)
    (hkeys : ∀ kv ∈ fields, kv.1 ∈ validEntryKeys) (hhost : Fields.get fields "host" ≠ some .null)
    (hhub : Fields.get fields "hub" ≠ some .null) :
    ∃ entry, validEntry (Js.parse numbers (.obj fields)) = some entry ∧
      Speaks data entry.identity := by
  obtain ⟨data', hdata', hagent, hrole, hnamed⟩ := validateEntry_ok hvalid
  obtain rfl : data' = data := Option.some.inj (hdata'.symm.trans hdata)
  obtain ⟨role, hofText, hishub⟩ := ofText_of_isRole hrole
  obtain ⟨hgetAgent, hgetRole, hgetHost, hgetHub⟩ := ofValue_obj hdata
  have hchecks : data'.agent ≠ "" ∧ (role = .hub → ∃ name, data'.hub = some name ∧ name ≠ "") :=
    ⟨hagent, fun h => hnamed (hishub.1 h)⟩
  let entry : TokenMapEntry := ⟨data'.agent, data'.host, role, data'.hub, hchecks.1, hchecks.2⟩
  refine ⟨entry, ?_, rfl, rfl, hofText, rfl⟩
  have hentry : namedEntry data'.agent data'.host role data'.hub = some entry := dif_pos hchecks
  rw [parse_sorted hsorted, validEntry, if_pos (all_keys_iff.2 hkeys)]
  simp only [Js.parseFields_get, hgetAgent, hgetRole, Option.map_some, Js.parse_str, Value.asStr,
    Option.bind_some, hofText, optionalString_parse hgetHost hhost,
    optionalString_parse hgetHub hhub, bind, hentry]

/-- No other is accepted. -/
theorem plain_of_validEntry {value : Value} {data : TokenMeta} {entry : TokenMapEntry}
    (hdata : TokenMeta.ofValue value = some data) (hsorted : value.SortedKeys)
    (h : validEntry (Js.parse numbers value) = some entry) :
    ∃ fields, value = .obj fields ∧ (∀ kv ∈ fields, kv.1 ∈ validEntryKeys) ∧
      Fields.get fields "host" ≠ some .null ∧ Fields.get fields "hub" ≠ some .null := by
  cases value with
  | null | bool b | int n | float x | str s => cases hdata
  | arr items =>
    rw [Js.parse_arr] at h
    cases h
  | obj fields =>
    have hfields : Fields.Sorted fields := hsorted.1
    rw [parse_sorted hfields, validEntry] at h
    split at h
    · next hkeys =>
      obtain ⟨agent, -, h⟩ := Option.bind_eq_some_iff.1 h
      obtain ⟨host, hhost, h⟩ := Option.bind_eq_some_iff.1 h
      obtain ⟨role, -, h⟩ := Option.bind_eq_some_iff.1 h
      obtain ⟨hub, hhub, -⟩ := Option.bind_eq_some_iff.1 h
      rw [Js.parseFields_get] at hhost hhub
      exact ⟨fields, rfl, all_keys_iff.1 hkeys, optionalText_of_parse hhost,
        optionalText_of_parse hhub⟩
    · cases h

/-! ### The map -/

theorem mem_ownProperties {fields : Fields} {kv : String × Value} :
    kv ∈ Js.ownProperties fields ↔ kv ∈ fields := by
  rw [Js.ownProperties, List.mem_append, List.mem_mergeSort, List.mem_filter, List.mem_filter,
    ← and_or_left]
  refine and_iff_left ?_
  cases Js.arrayIndex kv.1 with
  | none => exact Or.inr rfl
  | some n => exact Or.inl rfl

theorem mem_parseFields {fields : Fields} {kv : String × Value} :
    kv ∈ Js.parseFields numbers fields ↔ ∃ v, (kv.1, v) ∈ fields ∧ Js.parse numbers v = kv.2 := by
  induction fields with
  | nil => simp [Js.parseFields]
  | cons kw fields ih =>
    obtain ⟨k, w⟩ := kw
    rw [Js.parseFields, List.mem_cons, ih]
    constructor
    · rintro (rfl | ⟨v, hv, hparse⟩)
      · exact ⟨w, List.mem_cons_self, rfl⟩
      · exact ⟨v, List.mem_cons_of_mem _ hv, hparse⟩
    · rintro ⟨v, hv, hparse⟩
      rcases List.mem_cons.1 hv with heq | hv
      · obtain ⟨hk, rfl⟩ := Prod.mk.inj heq
        exact Or.inl (Prod.ext hk hparse.symm)
      · exact Or.inr ⟨v, hv, hparse⟩

/-- **The entries that are accepted** of the secret. -/
theorem mem_parseTokenMap {map : Fields} (hsorted : map.Sorted) {token : String}
    {entry : TokenMapEntry} :
    (token, entry) ∈ parseTokenMap numbers (some (secretText map)) ↔
      minTokenLen ≤ Js.length token ∧
        ∃ value, (token, value) ∈ map ∧ validEntry (Js.parse numbers value) = some entry := by
  -- the secret is not the empty text, which reads as no map at all
  have hne : secretText map ≠ "" := by
    intro hempty
    have hnil := congrArg String.toList hempty
    rw [secretText, String.toList_ofList, print] at hnil
    cases hnil
  -- what the Worker reads back is the map as it was printed
  have hparsed : ((some (secretText map)).filter (· ≠ "")).bind (jsonParse numbers) =
      some (.obj (Js.parseFields numbers map)) := by
    rw [Option.filter_some, if_pos (by simpa using hne), Option.bind_some, secretText,
      jsonParse_print, parse_sorted hsorted]
  rw [parseTokenMap, hparsed]
  dsimp only
  rw [List.mem_filterMap]
  constructor
  · -- an entry of the parsed map comes from a value of the printed one
    rintro ⟨⟨key, parsed⟩, hmem, h⟩
    obtain ⟨value, hvalue, hparse⟩ := mem_parseFields.1 (mem_ownProperties.1 hmem)
    dsimp only at h hvalue hparse
    split at h
    · next hlong =>
      obtain ⟨found, hfound, heq⟩ := Option.map_eq_some_iff.1 h
      obtain ⟨rfl, rfl⟩ := Prod.mk.inj heq
      exact ⟨hlong, value, hvalue, hparse ▸ hfound⟩
    · cases h
  · rintro ⟨hlong, value, hvalue, hentry⟩
    refine ⟨(token, Js.parse numbers value), ?_, ?_⟩
    · exact mem_ownProperties.2 (mem_parseFields.2 ⟨value, hvalue, rfl⟩)
    · dsimp only
      rw [if_pos hlong, hentry]
      rfl

theorem bearerToken_iff {header : Option String} {token : String} :
    bearerToken header = some token ↔ header = some ("Bearer " ++ token) ∧ token ≠ "" := by
  rw [bearerToken, named, Option.filter_eq_some_iff]
  refine and_congr ?_ (by simp)
  rw [Option.map_eq_some_iff]
  constructor
  · rintro ⟨text, htext, hdrop⟩
    obtain ⟨rfl, hstarts⟩ := Option.filter_eq_some_iff.1 htext
    obtain ⟨rest, hrest⟩ := List.isPrefixOf_iff_prefix.1 hstarts
    have hlength : "Bearer ".length = "Bearer ".toList.length := String.length_toList.symm
    rw [← hrest, hlength, List.drop_left] at hdrop
    rw [← hdrop]
    congr 1
    apply String.toList_injective
    rw [String.toList_append, ← hrest]
    exact congrArg _ String.toList_ofList.symm
  · rintro rfl
    refine ⟨"Bearer " ++ token, ?_, ?_⟩
    · rw [Option.filter_eq_some_iff]
      refine ⟨rfl, List.isPrefixOf_iff_prefix.2 ?_⟩
      rw [String.toList_append]
      exact List.prefix_append _ _
    · have hlength : "Bearer ".length = "Bearer ".toList.length := String.length_toList.symm
      rw [String.toList_append, hlength, List.drop_left, String.ofList_toList]

/-! ### Requests -/

section Read

variable {platform : Platform} {text : String} {map : Fields}
  (hread : readTokenMap platform text = .ok map)
include hread

theorem entries_of_read :
    map.Sorted ∧ ∀ kv ∈ map, validateEntry kv = .ok () ∧ kv.2.SortedKeys := by
  obtain ⟨hparse, hvalid⟩ := readTokenMap_ok hread
  have hproper := proper_of_parse hparse
  unfold validateTokenMap at hvalid
  split at hvalid
  · cases hvalid
  · refine ⟨hproper.sorted, fun kv hkv => ⟨forM_eq_ok.1 hvalid kv hkv, ?_⟩⟩
    exact document_sortedKeys (hproper.fixed kv hkv)

/-- An entry of the secret that is accepted. -/
theorem admitted_of_mem {token : String} {entry : TokenMapEntry}
    (h : (token, entry) ∈ parseTokenMap numbers (some (secretText map))) :
    ∃ value data, Fields.get map token = some value ∧ TokenMeta.ofValue value = some data ∧
      Admitted token value ∧ Speaks data entry.identity := by
  obtain ⟨hsorted, hentries⟩ := entries_of_read hread
  obtain ⟨hlong, value, hvalue, hentry⟩ := (mem_parseTokenMap hsorted).1 h
  obtain ⟨hvalid, hkeys⟩ := hentries _ hvalue
  obtain ⟨data, hdata, -⟩ := validateEntry_ok hvalid
  obtain ⟨fields, rfl, hplain⟩ := plain_of_validEntry hdata hkeys hentry
  obtain ⟨entry', hentry', hspeaks⟩ :=
    validEntry_of_plain hvalid hkeys.1 hdata hplain.1 hplain.2.1 hplain.2.2
  obtain rfl : entry' = entry := Option.some.inj (hentry'.symm.trans hentry)
  exact ⟨_, data, lookup_of_mem hsorted.keys_nodup hvalue, hdata, ⟨hlong, fields, rfl, hplain⟩,
    hspeaks⟩

/-- An entry of the map that is admitted. -/
theorem mem_of_admitted {token : String} {value : Value} {data : TokenMeta}
    (hget : Fields.get map token = some value) (hdata : TokenMeta.ofValue value = some data)
    (h : Admitted token value) :
    ∃ entry, (token, entry) ∈ parseTokenMap numbers (some (secretText map)) := by
  obtain ⟨hsorted, hentries⟩ := entries_of_read hread
  obtain ⟨hvalid, hkeys⟩ := hentries _ (mem_of_get hget)
  obtain ⟨fields, rfl, hnames, hhost, hhub⟩ := h.plain
  obtain ⟨entry, hentry, -⟩ := validEntry_of_plain hvalid hkeys.1 hdata hnames hhost hhub
  exact ⟨entry, (mem_parseTokenMap hsorted).2 ⟨h.long, _, mem_of_get hget, hentry⟩⟩

theorem accepts_of_admitted {token : String} {value : Value} {data : TokenMeta}
    (hget : Fields.get map token = some value) (hdata : TokenMeta.ofValue value = some data)
    (h : Admitted token value) :
    ∃ entry, (parseTokenMap numbers (some (secretText map))).find?
      (fun kv => timingSafeEqual token kv.1) = some (token, entry) ∧ Speaks data entry.identity := by
  obtain ⟨entry, hentry⟩ : ∃ entry, (token, entry) ∈ parseTokenMap numbers (some (secretText map)) :=
    mem_of_admitted hread hget hdata h
  have hsome : ((parseTokenMap numbers (some (secretText map))).find?
      fun kv => timingSafeEqual token kv.1).isSome := by
    rw [List.find?_isSome]
    exact ⟨_, hentry, timingSafeEqual_iff.2 rfl⟩
  obtain ⟨⟨candidate, found⟩, hfind⟩ := Option.isSome_iff_exists.1 hsome
  have hequal := List.find?_some hfind
  obtain rfl : token = candidate := timingSafeEqual_iff.1 hequal
  -- The names of the map are distinct, so this is the entry of the map.
  obtain ⟨value', data', hget', hdata', -, hspeaks⟩ :=
    admitted_of_mem hread (List.mem_of_find?_eq_some hfind)
  obtain rfl : value' = value := Option.some.inj (hget'.symm.trans hget)
  obtain rfl : data' = data := Option.some.inj (hdata'.symm.trans hdata)
  exact ⟨found, hfind, hspeaks⟩

/-- What a bearer token of the map is resolved to. -/
theorem resolved_iff {env : AuthEnv} (hsecret : env.tokens = some (secretText map))
    (hshared : env.devAllowSharedToken ≠ some "1") {header : Option String} {identity : Identity} :
    authenticate numbers env header = some identity ↔
      ∃ token value data, header = some ("Bearer " ++ token) ∧ Fields.get map token = some value ∧
        TokenMeta.ofValue value = some data ∧ Admitted token value ∧ Speaks data identity := by
  -- the shared token is off, so only the map can admit
  have hnone : ∀ token, sharesToken env token = false := by
    intro token
    rw [sharesToken, decide_eq_false hshared, Bool.false_and]
  rw [authenticate, hsecret, Option.bind_eq_bind, Option.bind_eq_some_iff]
  constructor
  · rintro ⟨token, hbearer, h⟩
    rw [hnone token] at h
    split at h
    · next candidate entry hfind =>
      have hequal := List.find?_some hfind
      -- the comparison is an equality of texts
      obtain rfl : token = candidate := timingSafeEqual_iff.1 hequal
      obtain ⟨value, data, hget, hdata, hadmitted, hspeaks⟩ :=
        admitted_of_mem hread (List.mem_of_find?_eq_some hfind)
      obtain rfl := Option.some.inj h
      exact ⟨token, value, data, (bearerToken_iff.1 hbearer).1, hget, hdata, hadmitted, hspeaks⟩
    · cases h
  · rintro ⟨token, value, data, hheader, hget, hdata, hadmitted, hspeaks⟩
    -- the empty token is shorter than an admitted one
    have hne : token ≠ "" := by
      rintro rfl
      exact absurd hadmitted.long (by decide)
    refine ⟨token, bearerToken_iff.2 ⟨hheader, hne⟩, ?_⟩
    obtain ⟨entry, hfind, hentry⟩ := accepts_of_admitted hread hget hdata hadmitted
    rw [hfind]
    exact congrArg some (hentry.unique hspeaks)

end Read

/-! ### What is minted -/

theorem length_hexBytes (bytes : List UInt8) : Js.length (hexBytes bytes) = 2 * bytes.length := by
  have hdigit : ∀ d < 16, (if (Nat.digitChar d).toNat < 0x10000 then 1 else 2) = 1 := by decide
  rw [Js.length, hexBytes, String.toList_ofList]
  induction bytes with
  | nil => rfl
  | cons b bytes ih =>
    have hhigh : b.toNat / 16 < 16 := by
      have hlt := b.toNat_lt
      omega
    have hlow : b.toNat % 16 < 16 := Nat.mod_lt _ (by decide)
    rw [List.flatMap_cons, List.map_append, List.sum_append, ih, List.length_cons]
    simp only [List.map_cons, List.map_nil, List.sum_cons, List.sum_nil, hdigit _ hhigh,
      hdigit _ hlow]
    omega

theorem plain_toValue (data : TokenMeta) :
    ∃ fields, data.toValue = .obj fields ∧ (∀ kv ∈ fields, kv.1 ∈ validEntryKeys) ∧
      Fields.get fields "host" ≠ some .null ∧ Fields.get fields "hub" ≠ some .null := by
  have htext : ∀ kv ∈ Fields.compact data.slots, ∃ s, kv.2 = .str s := fun kv hkv =>
    TokenMeta.mem_slots hkv
  have hget : ∀ k, Fields.get (Fields.compact data.slots) k ≠ some .null := by
    intro k hnull
    obtain ⟨s, hs⟩ := htext _ (mem_of_get hnull)
    cases hs
  refine ⟨Fields.compact data.slots, rfl, ?_, hget "host", hget "hub"⟩
  intro kv hkv
  have hname : kv.1 ∈ (Fields.compact data.slots).map Prod.fst := List.mem_map_of_mem hkv
  have hslot : kv.1 ∈ data.slots.map Prod.fst := (present_keys_sublist data.slots).subset hname
  have hslots : data.slots.map Prod.fst = ["agent", "host", "hub", "role"] := rfl
  rw [hslots] at hslot
  simp only [validEntryKeys, List.mem_cons, List.not_mem_nil, or_false] at hslot ⊢
  tauto

/-- **What the tool mints** is admitted. -/
theorem admitted_minted {bytes : List UInt8} (hbytes : bytes.length = 32) (data : TokenMeta) :
    Admitted (hexBytes bytes) data.toValue := by
  refine ⟨?_, plain_toValue data⟩
  rw [length_hexBytes, hbytes]
  decide

/-- **The tool and the Worker.**  For every map that the tool reads, with the secret that it makes of it
and the shared token off: a request is authenticated if and only if it bears a token of the map whose
entry is admitted, and then as what the metadata names; and a token that the tool minted is. -/
theorem authenticate_iff (numbers : Js.Numbers) (platform : Platform) (text : String) (map : Fields)
    (hread : readTokenMap platform text = .ok map) (env : AuthEnv)
    (hsecret : env.tokens = some (secretText map)) (hshared : env.devAllowSharedToken ≠ some "1") :
    (∀ (header : Option String) (identity : Identity),
      authenticate numbers env header = some identity ↔
        ∃ token value data, header = some ("Bearer " ++ token) ∧ Fields.get map token = some value ∧
          TokenMeta.ofValue value = some data ∧ Admitted token value ∧ Speaks data identity) ∧
    ∀ (bytes : List UInt8) (data : TokenMeta), bytes.length = 32 →
      Fields.get map (hexBytes bytes) = some data.toValue →
      ∃ identity, authenticate numbers env (some ("Bearer " ++ hexBytes bytes)) = some identity ∧
        Speaks data identity := by
  refine ⟨fun header identity => resolved_iff hread hsecret hshared, ?_⟩
  intro bytes data hbytes hget
  have hadmitted := admitted_minted hbytes data
  have hdata := ofValue_toValue data
  obtain ⟨entry, -, hspeaks⟩ :
      ∃ entry, (parseTokenMap numbers (some (secretText map))).find?
        (fun kv => timingSafeEqual (hexBytes bytes) kv.1) = some (hexBytes bytes, entry) ∧
          Speaks data entry.identity := accepts_of_admitted hread hget hdata hadmitted
  exact ⟨entry.identity, (resolved_iff hread hsecret hshared).2
    ⟨_, _, data, rfl, hget, hdata, hadmitted, hspeaks⟩, hspeaks⟩

/-! ### Maps that the Worker knows -/

/-- A platform on which every path leads to a file of its own. -/
def plainPlatform : Platform where
  doubles := plainDoubles
  place path := path.directory ++ "/" ++ path.leaf.getD ""
  isDevice _ := false
  debug host := host.getD "None"
  fingerprint token := token
  sha256 _ := ""

def sampleToken : String := "0123456789abcdef0123456789abcdef"

def sampleOperator : TokenMeta := ⟨"ops", "operator", none, none⟩

def sampleMap : Fields := [(sampleToken, sampleOperator.toValue)]

/-- A map with one entry is read back. -/
theorem read_single {token : String} {value : Value}
    (hfixed : document plainDoubles value = some value) (hshallow : value.depth < maxDepth)
    (hvalid : validateTokenMap [(token, value)] = .ok ()) :
    readTokenMap plainPlatform (String.ofList (pretty (.obj [(token, value)]))) =
      .ok [(token, value)] := by
  have hproper : Proper plainPlatform [(token, value)] :=
    proper_nil.insert token hfixed hshallow
  have hparse : CloudTokens.parseTokenMap plainPlatform (pretty (.obj [(token, value)]) ++ []) =
      some [(token, value)] := hproper.parse_text fun _ hc => absurd hc List.not_mem_nil
  rw [List.append_nil] at hparse
  rw [readTokenMap, String.toList_ofList, hparse]
  dsimp only
  rw [hvalid]
  rfl

theorem read_sampleMap :
    readTokenMap plainPlatform (String.ofList (pretty (.obj sampleMap))) = .ok sampleMap :=
  read_single (@document_toValue plainPlatform sampleOperator)
    (depth_toValue sampleOperator) (by decide)

theorem authenticate_iff_operator :
    ∃ identity, authenticate ⟨.float, .int⟩ ⟨some (secretText sampleMap), none, none⟩
        (some ("Bearer " ++ sampleToken)) = some identity ∧
      identity.agent = "ops" ∧ identity.role = .operator := by
  have hread := read_sampleMap
  have hiff := (authenticate_iff ⟨.float, .int⟩ plainPlatform _ sampleMap hread
    ⟨some (secretText sampleMap), none, none⟩ rfl (by decide)).1
  have hadmitted : Admitted sampleToken sampleOperator.toValue :=
    ⟨by decide, plain_toValue sampleOperator⟩
  let identity : Identity := ⟨"ops", none, .operator, none, by decide, unnamed, by decide, unnamed⟩
  have hspeaks : Speaks sampleOperator identity := ⟨rfl, rfl, rfl, rfl⟩
  exact ⟨identity, (hiff _ identity).2 ⟨sampleToken, sampleOperator.toValue, sampleOperator, rfl,
    by decide, ofValue_toValue sampleOperator, hadmitted, hspeaks⟩, rfl, rfl⟩

end AgentHub.Cloud
