import AgentHub.Channels.Equiv.Reader
import AgentHub.Export.Equiv.Journal
import AgentHub.Hub.Equiv.Compare
import AgentHub.Json.Equiv.Sorted
import AgentHub.Output.Minimal

/-!
# What the minimal encoding keeps

An object is read back from its minimal form where none of its fields is left out and none of its keys
is a short form: then its names are told apart (`minimizeValue_injective`).  The fields of a message
are such an object, but for the defaults, which their absence tells, and the tags, which are kept up
to their short forms.

`minimal_determines` is the result; `minimal_confuses` are messages and metadata that it does not tell
apart.
-/

namespace AgentHub.Output

open AgentHub.Json AgentHub.Hub

/-! ### Tags -/

theorem stripPrefix_eq_some {front text rest : List Char} (h : stripPrefix front text = some rest) :
    text = front ++ rest := by
  unfold stripPrefix at h
  split at h
  · next hprefix =>
    obtain ⟨tail, rfl⟩ := List.isPrefixOf_iff_prefix.1 hprefix
    rw [← Option.some.inj h, List.drop_left]
  · cases h

/-- A tag that has a short form at its front already. -/
def isShortTag (tag : String) : Bool := tagForms.any fun form => form.2.isPrefixOf tag.toList

/-- A tag is shortened, or it stays. -/
theorem shortenTag_cases (tag : String) :
    (∃ form ∈ tagForms, ∃ rest, tag.toList = form.1 ++ rest ∧
      (shortenTag tag).toList = form.2 ++ rest) ∨ shortenTag tag = tag := by
  unfold shortenTag
  split
  · next short hshort =>
    obtain ⟨form, hform, hsome⟩ := List.exists_of_findSome?_eq_some hshort
    obtain ⟨rest, hrest, rfl⟩ := Option.map_eq_some_iff.1 hsome
    exact Or.inl ⟨form, hform, rest, stripPrefix_eq_some hrest, String.toList_ofList⟩
  · exact Or.inr rfl

/-- The short forms begin with different characters. -/
theorem form_eq_of_append {form other : List Char × List Char} (hform : form ∈ tagForms)
    (hother : other ∈ tagForms) {rest rest' : List Char} (h : form.2 ++ rest = other.2 ++ rest') :
    form = other := by
  have hheads : ∀ f ∈ tagForms, ∀ g ∈ tagForms, f.2.head? = g.2.head? → f = g := by decide
  have hsome : ∀ f ∈ tagForms, f.2.head?.isSome = true := by decide
  refine hheads form hform other hother ?_
  have hhead := congrArg List.head? h
  rw [List.head?_append, List.head?_append] at hhead
  obtain ⟨c, hc⟩ := Option.isSome_iff_exists.1 (hsome form hform)
  obtain ⟨d, hd⟩ := Option.isSome_iff_exists.1 (hsome other hother)
  rw [hc, hd] at hhead ⊢
  exact hhead

theorem not_shortTag_append {form : List Char × List Char} (hform : form ∈ tagForms) {tag : String}
    (htag : isShortTag tag = false) (rest : List Char) : tag.toList ≠ form.2 ++ rest := by
  intro h
  have hshort : isShortTag tag = true := by
    refine List.any_eq_true.2 ⟨form, hform, ?_⟩
    rw [h]
    exact List.isPrefixOf_iff_prefix.2 (List.prefix_append _ _)
  rw [htag] at hshort
  cases hshort

/-- **Tags without a short form** are told apart by what they are shortened to. -/
theorem shortenTag_injective {tag other : String} (htag : isShortTag tag = false)
    (hother : isShortTag other = false) (h : shortenTag tag = shortenTag other) : tag = other := by
  have hlist := congrArg String.toList h
  rcases shortenTag_cases tag with ⟨form, hform, rest, htext, hshort⟩ | hsame
  · rcases shortenTag_cases other with ⟨form', hform', rest', htext', hshort'⟩ | hsame'
    · rw [hshort, hshort'] at hlist
      obtain rfl := form_eq_of_append hform hform' hlist
      rw [List.append_cancel_left hlist, ← htext'] at htext
      exact String.toList_injective htext
    · rw [hshort, hsame'] at hlist
      exact absurd hlist.symm (not_shortTag_append hform hother rest)
  · rcases shortenTag_cases other with ⟨form', hform', rest', htext', hshort'⟩ | hsame'
    · rw [hsame, hshort'] at hlist
      exact absurd hlist (not_shortTag_append hform' htag rest')
    · rw [← hsame, h, hsame']

/-! ### Objects -/

/-- The fields of an object that are not left out. -/
def keptFields (map : Fields) : Fields := map.filter fun kv => !dropped kv.1 kv.2

/-- What the value of a field becomes. -/
def minimizeField (k : String) : Value → Value
  | .arr items => .arr (if k = "tags" then shortenTagItems items else minimizeItems items)
  | v => minimizeValue v

/-- The fields that are inserted. -/
def minimizedFields (map : Fields) : Fields :=
  (keptFields map).map fun kv => (shortKey kv.1, minimizeField kv.1 kv.2)

/-- A turn of the loop. -/
theorem minimizeMap_cons (k : String) (v : Value) (map result : Fields) :
    minimizeMap ((k, v) :: map) result =
      if dropped k v then minimizeMap map result
      else minimizeMap map (Fields.insert result (shortKey k) (minimizeField k v)) := by
  cases v with
  | arr items => rfl
  | null | bool b | int n | float x | str s | obj fields => rfl

theorem minimizeMap_eq (map result : Fields) :
    minimizeMap map result =
      (minimizedFields map).foldl (fun m kv => Fields.insert m kv.1 kv.2) result := by
  induction map generalizing result with
  | nil => rfl
  | cons kv map ih =>
    obtain ⟨k, v⟩ := kv
    rw [minimizeMap_cons]
    unfold minimizedFields keptFields at ih ⊢
    cases hdropped : dropped k v with
    | true =>
      rw [if_pos rfl, List.filter_cons_of_neg (by simp [hdropped]), ih]
    | false =>
      rw [if_neg Bool.false_ne_true, List.filter_cons_of_pos (by simp [hdropped]), ih, List.map_cons,
        List.foldl_cons]

theorem minimizeValue_obj (map : Fields) :
    minimizeValue (.obj map) = .obj (Fields.ofPairs (minimizedFields map)) := by
  show Value.obj (minimizeMap map []) = _
  rw [minimizeMap_eq]
  rfl

theorem mem_shortForms {k short : String} (h : shortForms.lookup k = some short) :
    (k, short) ∈ shortForms := by
  obtain ⟨before, after, hforms, -⟩ := List.lookup_eq_some_iff.1 h
  rw [hforms]
  exact List.mem_append_right _ List.mem_cons_self

/-- The short forms of names. -/
def shortNames : List String := shortForms.map Prod.snd

/-- **Names that are no short forms** are told apart by theirs. -/
theorem shortKey_injective {k other : String} (hk : k ∉ shortNames) (hother : other ∉ shortNames)
    (h : shortKey k = shortKey other) : k = other := by
  -- no two of the short forms are the same
  have hforms : ∀ f ∈ shortForms, ∀ g ∈ shortForms, f.2 = g.2 → f.1 = g.1 := by decide
  have hmem : ∀ {name short : String}, shortForms.lookup name = some short →
      shortKey name = short ∧ (name, short) ∈ shortForms := by
    intro name short hname
    exact ⟨by rw [shortKey, hname]; rfl, mem_shortForms hname⟩
  have hnone : ∀ {name : String}, shortForms.lookup name = none → shortKey name = name := by
    intro name hname
    rw [shortKey, hname]
    rfl
  cases hlookup : shortForms.lookup k with
  | none =>
    cases hlookup' : shortForms.lookup other with
    | none => rw [← hnone hlookup, h, hnone hlookup']
    -- one key is short for another: excluded by the hypothesis
    | some short =>
      obtain ⟨hshort, hin⟩ := hmem hlookup'
      rw [hnone hlookup, hshort] at h
      exact absurd (List.mem_map_of_mem hin) (h ▸ hk)
  | some short =>
    obtain ⟨hshort, hin⟩ := hmem hlookup
    cases hlookup' : shortForms.lookup other with
    | none =>
      rw [hnone hlookup', hshort] at h
      exact absurd (List.mem_map_of_mem hin) (h ▸ hother)
    | some short' =>
      obtain ⟨hshort', hin'⟩ := hmem hlookup'
      exact hforms _ hin _ hin' (hshort.symm.trans (h.trans hshort'))

/-! ### Objects that are read back -/

/-- No two kept keys become one. -/
def Unmerged (fields : Fields) : Prop := ((minimizedFields fields).map Prod.fst).Nodup

/-- **Keys are merged** only where one of them is a short form. -/
theorem unmerged_of_long {fields : Fields} (hnodup : (fields.map Prod.fst).Nodup)
    (hlong : ∀ k ∈ fields.map Prod.fst, k ∉ shortNames) : Unmerged fields := by
  have hkeys : (minimizedFields fields).map Prod.fst =
      ((keptFields fields).map Prod.fst).map shortKey := by
    rw [minimizedFields, List.map_map, List.map_map]
    rfl
  have hsub : ((keptFields fields).map Prod.fst).Sublist (fields.map Prod.fst) :=
    List.filter_sublist.map Prod.fst
  rw [Unmerged, hkeys]
  refine (hsub.nodup hnodup).map_on ?_
  intro k hk other hother h
  exact shortKey_injective (hlong k (hsub.subset hk)) (hlong other (hsub.subset hother)) h

/-- What is found under the short form of a name. -/
theorem get_minimizedFields {fields : Fields} (hnodup : (fields.map Prod.fst).Nodup)
    (hlong : ∀ k ∈ fields.map Prod.fst, k ∉ shortNames) {k : String} (hk : k ∉ shortNames) :
    Fields.get (minimizedFields fields) (shortKey k) =
      ((Fields.get fields k).filter fun v => !dropped k v).map (minimizeField k) := by
  induction fields with
  | nil => rfl
  | cons kv fields ih =>
    obtain ⟨k', v⟩ := kv
    rw [List.map_cons, List.nodup_cons] at hnodup
    rw [List.map_cons, List.forall_mem_cons] at hlong
    have hrest := ih hnodup.2 hlong.2
    rw [Fields.get_cons]
    -- the field itself is first
    by_cases heq : k = k'
    · subst heq
      rw [Fields.get_eq_none_of_notMem hnodup.1] at hrest
      rw [if_pos rfl]
      cases hdropped : dropped k v with
      | true =>
        have hskip : minimizedFields ((k, v) :: fields) = minimizedFields fields := by
          rw [minimizedFields, keptFields, List.filter_cons_of_neg (by simp [hdropped])]
          rfl
        rw [hskip, hrest]
        simp [hdropped]
      | false =>
        have hfirst : minimizedFields ((k, v) :: fields) =
            (shortKey k, minimizeField k v) :: minimizedFields fields := by
          rw [minimizedFields, keptFields, List.filter_cons_of_pos (by simp [hdropped])]
          rfl
        rw [hfirst, Fields.get_cons, if_pos rfl]
        simp [hdropped]
    · -- another field is first, with another short key
      rw [if_neg heq, ← hrest]
      cases hdropped : dropped k' v with
      | true =>
        rw [minimizedFields, keptFields, List.filter_cons_of_neg (by simp [hdropped])]
        rfl
      | false =>
        have hne : shortKey k ≠ shortKey k' := fun h => heq (shortKey_injective hk hlong.1 h)
        rw [minimizedFields, keptFields, List.filter_cons_of_pos (by simp [hdropped]), List.map_cons,
          Fields.get_cons, if_neg hne]
        rfl

/-- An object without short forms among its keys. -/
theorem get_minimized {fields : Fields} (hnodup : (fields.map Prod.fst).Nodup)
    (hlong : ∀ k ∈ fields.map Prod.fst, k ∉ shortNames) {k : String} (hk : k ∉ shortNames) :
    (minimizeValue (.obj fields)).field? (shortKey k) =
      ((Fields.get fields k).filter fun v => !dropped k v).map (minimizeField k) := by
  rw [minimizeValue_obj]
  show Fields.get (Fields.ofPairs (minimizedFields fields)) (shortKey k) = _
  rw [Fields.get_ofPairs (unmerged_of_long hnodup hlong), get_minimizedFields hnodup hlong hk]

/-! ### Values that are read back -/

/-- A field that is neither left out nor confused with another. -/
structure PlainField (k : String) (v : Value) : Prop where
  kept : dropped k v = false
  long : k ∉ shortNames
  tags : k = "tags" → ∀ items, v = .arr items → ∀ tag, .str tag ∈ items → isShortTag tag = false

mutual

/-- The fields of all objects are such. -/
def Plain : Value → Prop
  | .obj fields => plainFields fields
  | .arr items => plainItems items
  | _ => True

def plainItems : List Value → Prop
  | [] => True
  | v :: items => Plain v ∧ plainItems items

def plainFields : Fields → Prop
  | [] => True
  | (k, v) :: fields => (PlainField k v ∧ Plain v) ∧ plainFields fields

end

theorem plainFields_iff {fields : Fields} :
    plainFields fields ↔ ∀ kv ∈ fields, PlainField kv.1 kv.2 ∧ Plain kv.2 := by
  induction fields with
  | nil => simp [plainFields]
  | cons kv fields ih => simp [plainFields, ih]

/-- Fields in order are told by what is found in them. -/
theorem Sorted.ext {fields others : Fields} (hsorted : fields.Sorted) (hothers : others.Sorted)
    (h : ∀ k, Fields.get fields k = Fields.get others k) : fields = others := by
  have hmem : ∀ kv, kv ∈ fields ↔ kv ∈ others := by
    intro kv
    constructor
    · intro hkv
      exact mem_of_get ((h kv.1).symm.trans (lookup_of_mem hsorted.keys_nodup hkv))
    · intro hkv
      exact mem_of_get ((h kv.1).trans (lookup_of_mem hothers.keys_nodup hkv))
  have hperm := (List.perm_ext_iff_of_nodup hsorted.keys_nodup.of_map hothers.keys_nodup.of_map).2 hmem
  refine hperm.eq_of_pairwise ?_ hsorted hothers
  intro kv kv' _ _ hlt hgt
  exact absurd hlt hgt.not_gt

/-- An array becomes an array, and so on. -/
theorem minimizeValue_eq_str {v : Value} {s : String} (h : minimizeValue v = .str s) : v = .str s := by
  cases v with
  | obj map => rw [minimizeValue_obj] at h; cases h
  | arr items => cases h
  | null | bool b | int n | float x | str t => exact h

theorem minimizeValue_eq_arr {v : Value} {items : List Value} (h : minimizeValue v = .arr items) :
    ∃ others, v = .arr others := by
  cases v with
  | obj map => rw [minimizeValue_obj] at h; cases h
  | arr others => exact ⟨others, rfl⟩
  | null | bool b | int n | float x | str t => cases h

/-- The names an object with plain fields has. -/
theorem long_of_plain {fields : Fields} (h : plainFields fields) :
    ∀ k ∈ fields.map Prod.fst, k ∉ shortNames := by
  intro k hk
  obtain ⟨kv, hkv, rfl⟩ := List.mem_map.1 hk
  exact (plainFields_iff.1 h kv hkv).1.long

/-- Where an object with plain fields has one, it is read back. -/
theorem filter_of_plain {fields : Fields} (h : plainFields fields) (k : String) :
    (Fields.get fields k).filter (fun v => !dropped k v) = Fields.get fields k := by
  cases hget : Fields.get fields k with
  | none => rfl
  | some v =>
    have hkept : dropped k v = false := (plainFields_iff.1 h (k, v) (mem_of_get hget)).1.kept
    simp [hkept]

/-- What a string in an array of tags becomes, and what another value does. -/
def shortenTagItem : Value → Value
  | .str tag => .str (shortenTag tag)
  | v => minimizeValue v

theorem shortenTagItems_cons (v : Value) (items : List Value) :
    shortenTagItems (v :: items) = shortenTagItem v :: shortenTagItems items := by
  cases v with
  | str tag => rfl
  | null | bool b | int n | float x | arr items | obj fields => rfl

/-- A field that is not an array of tags. -/
theorem minimizeField_of_ne {k : String} (hk : k ≠ "tags") (v : Value) :
    minimizeField k v = minimizeValue v := by
  cases v with
  | arr items =>
    show Value.arr (if k = "tags" then _ else _) = _
    rw [if_neg hk]
    rfl
  | null | bool b | int n | float x | str s | obj fields => rfl

mutual

/-- **Plain values** are told apart by their minimal forms. -/
theorem minimizeValue_injective {v w : Value} (hv : v.SortedKeys) (hw : w.SortedKeys)
    (pv : Plain v) (pw : Plain w) (h : minimizeValue v = minimizeValue w) : v = w := by
  cases v with
  | obj fields =>
    cases w with
    | obj others =>
      have hkeys := hv.1.keys_nodup
      have hkeys' := hw.1.keys_nodup
      -- the kept fields agree under their short keys
      have hfound : ∀ k, k ∉ shortNames →
          (Fields.get fields k).map (minimizeField k) = (Fields.get others k).map (minimizeField k) := by
        intro k hk
        rw [← filter_of_plain pv, ← filter_of_plain pw, ← get_minimized hkeys (long_of_plain pv) hk,
          ← get_minimized hkeys' (long_of_plain pw) hk, h]
      have habsent : ∀ {m : Fields}, plainFields m → ∀ k ∈ shortNames, Fields.get m k = none := by
        intro m hm k hk
        refine Fields.get_eq_none_of_notMem ?_
        intro hmem
        exact long_of_plain hm k hmem hk
      refine congrArg Value.obj (Sorted.ext hv.1 hw.1 ?_)
      intro k
      -- a short name is a key of neither
      by_cases hk : k ∈ shortNames
      · rw [habsent pv k hk, habsent pw k hk]
      · have hslot := hfound k hk
        cases hget : Fields.get fields k with
        | none =>
          rw [hget] at hslot
          exact (Option.map_eq_none_iff.1 hslot.symm).symm
        | some u =>
          rw [hget] at hslot
          obtain ⟨u', hget', hsame⟩ := Option.map_eq_some_iff.1 hslot.symm
          obtain ⟨hfield, hplain⟩ := plainFields_iff.1 pw (k, u') (mem_of_get hget')
          have hsorted : u'.SortedKeys := sortedFields_iff.1 hw.2 (k, u') (mem_of_get hget')
          have heq : u = u' :=
            minimizeFields_injective hv.2 pv (k, u) (mem_of_get hget) hsorted hplain hfield hsame.symm
          rw [hget', heq]
    | null | bool b | int n | float x | str s | arr items =>
      rw [minimizeValue_obj] at h
      cases h
  | arr items =>
    cases w with
    | arr others =>
      exact congrArg Value.arr (minimizeItems_injective hv hw pv pw (Value.arr.inj h))
    | obj fields =>
      rw [minimizeValue_obj] at h
      cases h
    | null | bool b | int n | float x | str s => cases h
  | null | bool b | int n | float x | str s =>
    cases w with
    | obj fields =>
      rw [minimizeValue_obj] at h
      cases h
    | arr items => cases h
    | null | bool b | int n | float x | str s => exact h

theorem minimizeItems_injective {items others : List Value} (hv : sortedItems items)
    (hw : sortedItems others) (pv : plainItems items) (pw : plainItems others)
    (h : minimizeItems items = minimizeItems others) : items = others := by
  cases items with
  | nil =>
    cases others with
    | nil => rfl
    | cons w others => cases h
  | cons v items =>
    cases others with
    | nil => cases h
    | cons w others =>
      obtain ⟨hhead, htail⟩ := List.cons.inj h
      rw [minimizeValue_injective hv.1 hw.1 pv.1 pw.1 hhead,
        minimizeItems_injective hv.2 hw.2 pv.2 pw.2 htail]

theorem shortenTagItems_injective {items others : List Value} (hv : sortedItems items)
    (hw : sortedItems others) (pv : plainItems items) (pw : plainItems others)
    (tv : ∀ tag, .str tag ∈ items → isShortTag tag = false)
    (tw : ∀ tag, .str tag ∈ others → isShortTag tag = false)
    (h : shortenTagItems items = shortenTagItems others) : items = others := by
  cases items with
  | nil =>
    cases others with
    | nil => rfl
    | cons w others =>
      rw [shortenTagItems_cons] at h
      cases h
  | cons v items =>
    cases others with
    | nil =>
      rw [shortenTagItems_cons] at h
      cases h
    | cons w others =>
      rw [shortenTagItems_cons, shortenTagItems_cons] at h
      obtain ⟨hhead, htail⟩ := List.cons.inj h
      have hrest := shortenTagItems_injective hv.2 hw.2 pv.2 pw.2
        (fun tag htag => tv tag (List.mem_cons_of_mem _ htag))
        (fun tag htag => tw tag (List.mem_cons_of_mem _ htag)) htail
      -- a shortened tag is a text, so the heads are both texts or neither
      have hfirst : v = w := by
        cases v with
        | str tag =>
          cases w with
          | str other =>
            rw [shortenTag_injective (tv tag List.mem_cons_self) (tw other List.mem_cons_self)
              (Value.str.inj hhead)]
          | null | bool b | int n | float x | arr items | obj fields =>
            cases minimizeValue_eq_str hhead.symm
        | null | bool b | int n | float x | arr items | obj fields =>
          cases w with
          | str other => cases minimizeValue_eq_str hhead
          | null | bool b | int n | float x | arr items | obj fields =>
            exact minimizeValue_injective hv.1 hw.1 pv.1 pw.1 hhead
      rw [hfirst, hrest]

theorem minimizeFields_injective {fields : Fields} (hv : sortedFields fields)
    (pv : plainFields fields) : ∀ kv ∈ fields, ∀ {w : Value}, w.SortedKeys → Plain w →
      PlainField kv.1 w → minimizeField kv.1 kv.2 = minimizeField kv.1 w → kv.2 = w := by
  cases fields with
  | nil => simp
  | cons first fields =>
    obtain ⟨k, v⟩ := first
    intro kv hkv w hw pw hfield h
    rcases List.mem_cons.1 hkv with rfl | hkv
    · -- the tags are shortened one by one
      by_cases hk : k = "tags"
      · subst hk
        cases v with
        | arr items =>
          cases w with
          | arr others =>
            have htags := pv.1.1.tags rfl items rfl
            exact congrArg Value.arr (shortenTagItems_injective hv.1 hw pv.1.2 pw htags
              (hfield.tags rfl others rfl) (Value.arr.inj h))
          | obj fields =>
            rw [show minimizeField "tags" (.obj fields) = minimizeValue (.obj fields) from rfl,
              minimizeValue_obj] at h
            cases h
          | null | bool b | int n | float x | str s => cases h
        | null | bool b | int n | float x | str s | obj fields =>
          cases w with
          | arr others =>
            obtain ⟨items, hitems⟩ := minimizeValue_eq_arr h
            cases hitems
          | null | bool b | int n | float x | str s | obj fields =>
            exact minimizeValue_injective hv.1 hw pv.1.2 pw h
      · -- any other field is minimized as a value
        rw [minimizeField_of_ne hk, minimizeField_of_ne hk] at h
        exact minimizeValue_injective hv.1 hw pv.1.2 pw h
    · exact minimizeFields_injective hv.2 pv.2 kv hkv hw pw hfield h

end

/-! ### Messages -/

/-- The fields of a message, absent or not. -/
def messageSlots (m : Sync.Message) : List (String × Option Value) :=
  [("id", some (.str m.id)),
   ("timestamp_utc", some (.str m.timestampUtc)),
   ("protocol_version", some (.str m.protocolVersion)),
   ("from", some (.str m.fromAgent)),
   ("to", some (.str m.toAgent)),
   ("topic", some (.str m.topic)),
   ("body", some (.str m.body)),
   ("thread_id", m.threadId.map .str),
   ("tags", some (.arr (m.tags.map .str))),
   ("priority", some (.str m.priority)),
   ("request_ack", some (.bool m.requestAck)),
   ("reply_to", m.replyTo.map .str),
   ("metadata", some m.metadata),
   ("stream_id", m.streamId.map .str),
   ("client_msg_id", m.clientMsgId.map .str),
   ("origin_hub", m.originHub.map .str),
   ("origin_seq", m.originSeq.map fun n => .int n.toNat),
   ("hlc", m.hlc.map .str),
   ("sensitivity", m.sensitivity.map fun s => .str s.asStr)]

theorem messageFields_eq (m : Sync.Message) :
    Export.messageFields m = Fields.compact (messageSlots m) := by
  rw [Export.messageFields, Hub.Message.fields, Fields.compact, Fields.compact,
    ← List.filterMap_append]
  rfl

/-- No field of a message has a short name. -/
theorem long_of_message {m : Sync.Message} :
    ∀ k ∈ (Export.messageFields m).map Prod.fst, k ∉ shortNames := by
  have hlong : ∀ k ∈ (messageSlots m).map Prod.fst, k ∉ shortNames := by
    have hnames : (messageSlots m).map Prod.fst =
        ["id", "timestamp_utc", "protocol_version", "from", "to", "topic", "body", "thread_id",
          "tags", "priority", "request_ack", "reply_to", "metadata", "stream_id", "client_msg_id",
          "origin_hub", "origin_seq", "hlc", "sensitivity"] := rfl
    rw [hnames]
    decide
  intro k hk
  rw [messageFields_eq] at hk
  obtain ⟨kv, hkv, rfl⟩ := List.mem_map.1 hk
  obtain ⟨slot, hslot, hsome⟩ := List.mem_filterMap.1 hkv
  obtain ⟨v, -, rfl⟩ := Option.map_eq_some_iff.1 hsome
  exact hlong slot.1 (List.mem_map_of_mem hslot)

theorem mem_map_ofPairs {kvs : Fields} {k : String} (h : k ∈ (Fields.ofPairs kvs).map Prod.fst) :
    k ∈ kvs.map Prod.fst := by
  obtain ⟨kv, hkv, rfl⟩ := List.mem_map.1 h
  exact List.mem_map_of_mem (Fields.mem_of_mem_ofPairs hkv)

/-- What the minimal form of a message has under the short form of a name. -/
theorem get_minimal (m : Sync.Message) {k : String} (hk : k ∉ shortNames) :
    (minimizeValue (messageValue m)).field? (shortKey k) =
      (((messageSlots m).lookup k).join.filter fun v => !dropped k v).map (minimizeField k) := by
  have hslots : ((messageSlots m).map Prod.fst).Nodup := by simp [messageSlots]
  rw [messageValue, get_minimized (Fields.sorted_ofPairs _).keys_nodup
    (fun k hk => long_of_message k (mem_map_ofPairs hk)) hk,
    Fields.get_ofPairs (Export.nodup_messageFields m), messageFields_eq, get_compact hslots]

/-- A field has one default. -/
theorem dropped_unique {k : String} {v w : Value} (hprotocol : k ≠ "protocol_version")
    (hstream : k ≠ "stream_id") (hv : dropped k v = true) (hw : dropped k w = true) : v = w := by
  have hnames : ["tags", "metadata", "thread_id", "request_ack", "priority"].Nodup := by decide
  simp only [dropped, Bool.or_eq_true, Bool.and_eq_true, decide_eq_true_eq, hprotocol, hstream,
    or_false, false_or] at hv hw
  grind

/-- What a field becomes, unless it is left out. -/
theorem kept_some (k : String) (v : Value) :
    ((some (some v)).join.filter fun v => !dropped k v).map (minimizeField k) =
      if dropped k v then none else some (minimizeField k v) := by
  show ((some v).filter _).map _ = _
  rw [Option.filter_some]
  cases dropped k v with
  | true => rfl
  | false => rfl

section Same

variable {m n : Sync.Message} (h : minimizeValue (messageValue m) = minimizeValue (messageValue n))

include h

/-- A field that messages always have: it is its default in both or in neither. -/
theorem slot_minimal {k : String} {v w : Value} (hk : k ∉ shortNames)
    (hprotocol : k ≠ "protocol_version") (hstream : k ≠ "stream_id")
    (hv : (messageSlots m).lookup k = some (some v))
    (hw : (messageSlots n).lookup k = some (some w)) : minimizeField k v = minimizeField k w := by
  have hslot := get_minimal m hk
  rw [h, get_minimal n hk, hv, hw, kept_some, kept_some] at hslot
  split at hslot
  · next hdropped' =>
    split at hslot
    · next hdropped => rw [dropped_unique hprotocol hstream hdropped hdropped']
    · cases hslot
  · split at hslot
    · cases hslot
    · exact (Option.some.inj hslot).symm

/-- A text that messages may have. -/
theorem slot_text {k : String} {o o' : Option String} (hk : k ∉ shortNames)
    (hkept : ∀ s, dropped k (.str s) = false)
    (hv : (messageSlots m).lookup k = some (o.map .str))
    (hw : (messageSlots n).lookup k = some (o'.map .str)) : o = o' := by
  have hslot := get_minimal m hk
  rw [h, get_minimal n hk, hv, hw] at hslot
  have hall : ∀ o : Option String,
      (((some (o.map Value.str)).join.filter fun v => !dropped k v).map (minimizeField k)) =
        o.map Value.str := by
    intro o
    cases o with
    | none => rfl
    | some s =>
      rw [Option.map_some, kept_some, hkept s]
      rfl
  rw [hall, hall] at hslot
  exact (Option.map_injective (fun _ _ => Value.str.inj) hslot).symm

end Same

/-! ### What is kept -/

theorem shortenTagItems_str (tags : List String) :
    shortenTagItems (tags.map .str) = (tags.map shortenTag).map .str := by
  induction tags with
  | nil => rfl
  | cons tag tags ih =>
    rw [List.map_cons, shortenTagItems_cons, ih]
    rfl

/-- Lists of tags without short forms are told apart. -/
theorem shortenTags_injective {tags others : List String} (htags : ∀ tag ∈ tags, isShortTag tag = false)
    (hothers : ∀ tag ∈ others, isShortTag tag = false)
    (h : tags.map shortenTag = others.map shortenTag) : tags = others := by
  induction tags generalizing others with
  | nil => exact (List.map_eq_nil_iff.1 h.symm).symm
  | cons tag tags ih =>
    cases others with
    | nil => cases h
    | cons other others =>
      rw [List.forall_mem_cons] at htags hothers
      obtain ⟨hhead, htail⟩ := List.cons.inj h
      rw [shortenTag_injective htags.1 hothers.1 hhead, ih htags.2 hothers.2 htail]

/-- What two messages with one minimal form have in common. -/
structure Alike (m n : Sync.Message) : Prop where
  id : m.id = n.id
  timestampUtc : m.timestampUtc = n.timestampUtc
  fromAgent : m.fromAgent = n.fromAgent
  toAgent : m.toAgent = n.toAgent
  topic : m.topic = n.topic
  body : m.body = n.body
  priority : m.priority = n.priority
  requestAck : m.requestAck = n.requestAck
  replyTo : m.replyTo = n.replyTo
  threadId : m.threadId = n.threadId
  shortTags : m.tags.map shortenTag = n.tags.map shortenTag
  tags : (∀ tag ∈ m.tags, isShortTag tag = false) → (∀ tag ∈ n.tags, isShortTag tag = false) →
    m.tags = n.tags
  minimalMetadata : minimizeValue m.metadata = minimizeValue n.metadata
  metadata : m.metadata.SortedKeys → n.metadata.SortedKeys → Plain m.metadata → Plain n.metadata →
    m.metadata = n.metadata

/-- **Messages with one minimal form** agree but for short tags and metadata that is not plain. -/
theorem alike_of_minimal {m n : Sync.Message}
    (h : minimizeValue (messageValue m) = minimizeValue (messageValue n)) : Alike m n := by
  -- every text field that is never dropped
  have htext : ∀ {k s t : String}, k ∉ shortNames → k ≠ "protocol_version" → k ≠ "stream_id" →
      (messageSlots m).lookup k = some (some (.str s)) →
      (messageSlots n).lookup k = some (some (.str t)) → s = t := by
    intro k s t hk hprotocol hstream hs ht
    exact Value.str.inj (slot_minimal h hk hprotocol hstream hs ht)
  have hack : m.requestAck = n.requestAck :=
    Value.bool.inj (slot_minimal h (k := "request_ack") (by decide) (by decide) (by decide) rfl rfl)
  have htags : m.tags.map shortenTag = n.tags.map shortenTag := by
    have hitems : minimizeField "tags" (.arr (m.tags.map .str)) =
        minimizeField "tags" (.arr (n.tags.map .str)) :=
      slot_minimal h (by decide) (by decide) (by decide) rfl rfl
    -- the tags agree in their short forms only
    have hshort : shortenTagItems (m.tags.map .str) = shortenTagItems (n.tags.map .str) :=
      Value.arr.inj hitems
    rw [shortenTagItems_str, shortenTagItems_str] at hshort
    exact List.map_injective_iff.2 (fun _ _ => Value.str.inj) hshort
  have hmetadata : minimizeValue m.metadata = minimizeValue n.metadata := by
    have hfield := slot_minimal h (k := "metadata") (v := m.metadata) (w := n.metadata)
      (by decide) (by decide) (by decide) rfl rfl
    rw [minimizeField_of_ne (by decide), minimizeField_of_ne (by decide)] at hfield
    exact hfield
  -- protocol version and stream id are not in the minimal form
  exact
    { id := htext (k := "id") (by decide) (by decide) (by decide) rfl rfl
      timestampUtc := htext (k := "timestamp_utc") (by decide) (by decide) (by decide) rfl rfl
      fromAgent := htext (k := "from") (by decide) (by decide) (by decide) rfl rfl
      toAgent := htext (k := "to") (by decide) (by decide) (by decide) rfl rfl
      topic := htext (k := "topic") (by decide) (by decide) (by decide) rfl rfl
      body := htext (k := "body") (by decide) (by decide) (by decide) rfl rfl
      priority := htext (k := "priority") (by decide) (by decide) (by decide) rfl rfl
      requestAck := hack
      replyTo := slot_text h (k := "reply_to") (by decide) (fun s => by simp [dropped]) rfl rfl
      threadId := slot_text h (k := "thread_id") (by decide) (fun s => by simp [dropped]) rfl rfl
      shortTags := htags
      tags := fun hm hn => shortenTags_injective hm hn htags
      minimalMetadata := hmetadata
      metadata := fun hm hn pm pn => minimizeValue_injective hm hn pm pn hmetadata }

/-- The minimal form of a message tells all of it but what a tag and metadata with short forms or
defaults leave open, and the keys of an object that has no short form among them stay apart, as those
of a message do. -/
theorem minimal_determines :
    (∀ m n : Sync.Message, minimizeValue (messageValue m) = minimizeValue (messageValue n) →
      Alike m n) ∧
    (∀ m : Sync.Message, Unmerged (Fields.ofPairs (Export.messageFields m))) ∧
    ∀ fields : Fields, fields.Sorted → (∀ k ∈ fields.map Prod.fst, k ∉ shortNames) →
      Unmerged fields := by
  refine ⟨fun m n => alike_of_minimal, ?_, ?_⟩
  · intro m
    exact unmerged_of_long (Fields.sorted_ofPairs _).keys_nodup
      fun k hk => long_of_message k (mem_map_ofPairs hk)
  · intro fields hsorted hlong
    exact unmerged_of_long hsorted.keys_nodup hlong

/-- A message with such tags and metadata. -/
def sample (tags : List String) (metadata : Value) : Sync.Message where
  id := "1"
  timestampUtc := "2026-01-01T00:00:00.000000Z"
  protocolVersion := "1.0"
  fromAgent := "a"
  toAgent := "b"
  topic := "t"
  body := "hello"
  threadId := none
  tags := tags
  priority := "normal"
  requestAck := false
  replyTo := none
  metadata := metadata
  streamId := none
  clientMsgId := none
  originHub := none
  originSeq := none
  hlc := none
  sensitivity := none

/-- Two messages with one minimal form, of different streams and with tags of different length. -/
theorem minimal_determines_confused :
    Alike { sample ["repo:x"] (.obj [("kind", .str "note")]) with streamId := some "1-0" }
        (sample ["r:x"] (.obj [("kind", .str "note")])) ∧
      Unmerged [("kind", .str "note")] :=
  ⟨minimal_determines.1 _ _ (by decide +kernel),
    minimal_determines.2.2 _ (List.pairwise_singleton _ _) (by decide +kernel)⟩

/-- **Short forms are not told apart** from what they stand for, nor a field that is left out from
another one, and a key and its short form become one. -/
theorem minimal_confuses :
    minimizeValue (messageValue (sample ["repo:x"] (.obj []))) =
        minimizeValue (messageValue (sample ["r:x"] (.obj []))) ∧
      (sample ["repo:x"] (.obj [])).tags ≠ (sample ["r:x"] (.obj [])).tags ∧
    minimizeValue (messageValue (sample [] (.obj [("stream_id", .str "a")]))) =
        minimizeValue (messageValue (sample [] (.obj [("stream_id", .str "b")]))) ∧
      (sample [] (.obj [("stream_id", .str "a")])).metadata ≠
        (sample [] (.obj [("stream_id", .str "b")])).metadata ∧
    ¬ Unmerged [("f", .int 2), ("from", .int 1)] := by
  refine ⟨by decide, by decide, by decide, by decide, ?_⟩
  show ¬ ((minimizedFields _).map Prod.fst).Nodup
  decide +kernel

end AgentHub.Output
