import AgentHub.Json.Document
import Mathlib.Data.List.Nodup

/-!
# Fields of a document that was read

Reading a document changes its numbers and the order of its fields, and nothing else: an object
with distinct keys has at every key what was there, read (`document_obj`).
-/

namespace AgentHub.Json

/-! ### Objects -/

theorem lookup_eq_none_of_notMem {α : Type} {kvs : List (String × α)} {k : String}
    (h : k ∉ kvs.map Prod.fst) : kvs.lookup k = none := by
  rw [List.lookup_eq_none_iff]
  intro kv hkv
  rw [bne_iff_ne]
  rintro rfl
  exact h (List.mem_map_of_mem hkv)

/-- The entry with a key is looked up. -/
theorem lookup_of_mem {α : Type} {kvs : List (String × α)} (hnodup : (kvs.map Prod.fst).Nodup)
    {kv : String × α} (h : kv ∈ kvs) : kvs.lookup kv.1 = some kv.2 := by
  induction kvs with
  | nil => cases h
  | cons head kvs ih =>
    rw [List.map_cons, List.nodup_cons] at hnodup
    rw [List.lookup_cons]
    rcases List.mem_cons.1 h with rfl | htail
    · simp
    · have hne : kv.1 ≠ head.1 := fun heq => hnodup.1 (heq ▸ List.mem_map_of_mem htail)
      rw [beq_eq_false_iff_ne.2 hne]
      exact ih hnodup.2 htail

theorem mem_of_lookup {α : Type} {kvs : List (String × α)} {k : String} {v : α}
    (h : kvs.lookup k = some v) : (k, v) ∈ kvs := by
  obtain ⟨before, after, hkvs, -⟩ := List.lookup_eq_some_iff.1 h
  rw [hkvs]
  exact List.mem_append_right _ List.mem_cons_self

namespace Fields

@[simp] theorem get_nil (k : String) : get [] k = none := rfl

theorem get_cons (k' k : String) (v : Value) (m : Fields) :
    get ((k', v) :: m) k = if k = k' then some v else get m k := by
  unfold get
  rw [List.lookup_cons]
  by_cases h : k = k'
  · simp [h]
  · simp [h, beq_eq_false_iff_ne.2 h]

theorem get_insert (m : Fields) (key : String) (v : Value) (k : String) :
    get (insert m key v) k = if k = key then some v else get m k := by
  induction m with
  | nil => exact get_cons key k v []
  | cons kv m ih =>
    obtain ⟨k', w⟩ := kv
    rw [insert]
    by_cases hlt : key < k'
    · rw [if_pos hlt]
      exact get_cons key k v _
    · rw [if_neg hlt]
      by_cases heq : key = k'
      · rw [if_pos heq, get_cons, get_cons, ← heq]
        split_ifs <;> rfl
      · rw [if_neg heq, get_cons, get_cons, ih]
        by_cases hk : k = k'
        · have hne : k ≠ key := fun h => heq (h.symm.trans hk)
          rw [if_pos hk, if_pos hk, if_neg hne]
        · rw [if_neg hk, if_neg hk]

theorem get_eq_none_of_notMem {m : Fields} {k : String} (h : k ∉ m.map Prod.fst) :
    get m k = none :=
  lookup_eq_none_of_notMem h

theorem get_foldl_insert {kvs : List (String × Value)} (hnodup : (kvs.map Prod.fst).Nodup)
    (m : Fields) (k : String) :
    get (kvs.foldl (fun m kv => insert m kv.1 kv.2) m) k = (get kvs k).or (get m k) := by
  induction kvs generalizing m with
  | nil => rfl
  | cons kv kvs ih =>
    obtain ⟨k', v⟩ := kv
    simp only [List.map_cons, List.nodup_cons] at hnodup
    rw [List.foldl_cons, ih hnodup.2, get_insert, get_cons]
    by_cases hk : k = k'
    · rw [if_pos hk, if_pos hk, hk, get_eq_none_of_notMem hnodup.1]
      rfl
    · rw [if_neg hk, if_neg hk]

theorem get_ofPairs {kvs : List (String × Value)} (hnodup : (kvs.map Prod.fst).Nodup)
    (k : String) : get (ofPairs kvs) k = get kvs k := by
  rw [ofPairs, get_foldl_insert hnodup, get_nil, Option.or_none]

end Fields

/-- What is present under a name, in a list of slots in which no name stands twice. -/
theorem lookup_present {α : Type} {kvs : List (String × Option α)}
    (hnodup : (kvs.map Prod.fst).Nodup) (k : String) :
    (kvs.filterMap fun kv => kv.2.map fun v => (kv.1, v)).lookup k = (kvs.lookup k).join := by
  induction kvs with
  | nil => rfl
  | cons kv kvs ih =>
    obtain ⟨k', o⟩ := kv
    simp only [List.map_cons, List.nodup_cons] at hnodup
    have hrest := ih hnodup.2
    by_cases hk : k = k'
    · subst hk
      cases o with
      | none =>
        rw [lookup_eq_none_of_notMem hnodup.1] at hrest
        simpa [List.lookup_cons, List.lookup_nil] using hrest
      | some v => simp
    · have hne : (k == k') = false := by simpa using hk
      cases o with
      | none => simpa [List.lookup_cons, List.lookup_nil, hne] using hrest
      | some v => simpa [List.lookup_cons, List.lookup_nil, hne] using hrest

/-- The field a structure writes, when no name stands twice. -/
theorem get_compact {kvs : List (String × Option Value)} (hnodup : (kvs.map Prod.fst).Nodup)
    (k : String) : Fields.get (Fields.compact kvs) k = (kvs.lookup k).join :=
  lookup_present hnodup k

theorem present_keys_sublist {α : Type} (kvs : List (String × Option α)) :
    ((kvs.filterMap fun kv => kv.2.map fun v => (kv.1, v)).map Prod.fst).Sublist
      (kvs.map Prod.fst) := by
  induction kvs with
  | nil => exact List.Sublist.refl _
  | cons kv kvs ih =>
    obtain ⟨k, o⟩ := kv
    cases o with
    | none => exact ih.cons _
    | some v => exact ih.cons_cons _

theorem present_keys_nodup {α : Type} {kvs : List (String × Option α)}
    (h : (kvs.map Prod.fst).Nodup) :
    ((kvs.filterMap fun kv => kv.2.map fun v => (kv.1, v)).map Prod.fst).Nodup :=
  (present_keys_sublist kvs).nodup h

theorem compact_keys_nodup {kvs : List (String × Option Value)} (h : (kvs.map Prod.fst).Nodup) :
    ((Fields.compact kvs).map Prod.fst).Nodup :=
  present_keys_nodup h

theorem mem_of_get {m : Fields} {k : String} {v : Value} (h : m.get k = some v) : (k, v) ∈ m :=
  mem_of_lookup h

/-! ### Documents -/

variable {d : Doubles}

theorem documentFields_get {fields fields' : Fields} (h : documentFields d fields = some fields') :
    fields'.map Prod.fst = fields.map Prod.fst ∧
      ∀ k, Fields.get fields' k = (Fields.get fields k).bind (document d) := by
  induction fields generalizing fields' with
  | nil =>
    obtain rfl : [] = fields' := Option.some.inj h
    exact ⟨rfl, fun k => rfl⟩
  | cons kv fields ih =>
    obtain ⟨k', v⟩ := kv
    simp only [documentFields, Option.bind_eq_bind, Option.bind_eq_some_iff, Option.pure_def,
      Option.some.injEq] at h
    obtain ⟨w, hw, rest, hrest, rfl⟩ := h
    obtain ⟨hkeys, hget⟩ := ih hrest
    constructor
    · rw [List.map_cons, List.map_cons, hkeys]
    · intro k
      rw [Fields.get_cons, Fields.get_cons]
      by_cases hk : k = k'
      · rw [if_pos hk, if_pos hk, Option.bind_some, hw]
      · rw [if_neg hk, if_neg hk, hget]

/-- **A read object has at every key what was there, read.** -/
theorem document_obj {fields : Fields} (hnodup : (fields.map Prod.fst).Nodup) {w : Value}
    (h : document d (.obj fields) = some w) (k : String) :
    w.field? k = (Fields.get fields k).bind (document d) := by
  rw [document, Option.map_eq_some_iff] at h
  obtain ⟨fields', hfields, rfl⟩ := h
  obtain ⟨hkeys, hget⟩ := documentFields_get hfields
  show Fields.get (Fields.ofPairs fields') k = _
  rw [Fields.get_ofPairs (hkeys ▸ hnodup), hget]

/-- Of an object that can be read, every value can. -/
theorem document_of_mem {fields : Fields} {w : Value} (h : document d (.obj fields) = some w)
    {k : String} {v : Value} (hmem : (k, v) ∈ fields) : ∃ v', document d v = some v' := by
  rw [document, Option.map_eq_some_iff] at h
  obtain ⟨fields', hfields, -⟩ := h
  induction fields generalizing fields' with
  | nil => cases hmem
  | cons kv fields ih =>
    obtain ⟨k', x⟩ := kv
    simp only [documentFields, Option.bind_eq_bind, Option.bind_eq_some_iff] at hfields
    obtain ⟨x', hx, rest, hrest, -⟩ := hfields
    rcases List.mem_cons.1 hmem with heq | hmem
    · obtain ⟨-, rfl⟩ := Prod.mk.inj heq
      exact ⟨x', hx⟩
    · exact ih hmem rest hrest

theorem documentItems_forall₂ {items items' : List Value} (h : documentItems d items = some items') :
    List.Forall₂ (fun v w => document d v = some w) items items' := by
  induction items generalizing items' with
  | nil =>
    obtain rfl : [] = items' := Option.some.inj h
    exact List.Forall₂.nil
  | cons v items ih =>
    simp only [documentItems, Option.bind_eq_bind, Option.bind_eq_some_iff, Option.pure_def,
      Option.some.injEq] at h
    obtain ⟨w, hw, rest, hrest, rfl⟩ := h
    exact List.Forall₂.cons hw (ih hrest)

@[simp] theorem document_str (s : String) : document d (.str s) = some (.str s) := rfl

@[simp] theorem document_bool (b : Bool) : document d (.bool b) = some (.bool b) := rfl

theorem document_arr_str (texts : List String) :
    document d (.arr (texts.map .str)) = some (.arr (texts.map .str)) := by
  rw [document, Option.map_eq_some_iff]
  refine ⟨texts.map .str, ?_, rfl⟩
  induction texts with
  | nil => rfl
  | cons s texts ih =>
    rw [List.map_cons, documentItems, ih]
    rfl

/-- Every value of an object can be read, so the object can. -/
theorem document_obj_isSome {fields : Fields}
    (h : ∀ kv ∈ fields, (document d kv.2).isSome) : (document d (.obj fields)).isSome := by
  rw [document, Option.isSome_map]
  induction fields with
  | nil => rfl
  | cons kv fields ih =>
    obtain ⟨k, v⟩ := kv
    obtain ⟨w, hw⟩ := Option.isSome_iff_exists.1 (h (k, v) List.mem_cons_self)
    obtain ⟨rest, hrest⟩ := Option.isSome_iff_exists.1
      (ih fun kv hkv => h kv (List.mem_cons_of_mem _ hkv))
    rw [documentFields, hw, hrest]
    rfl

/-- Conversions for documents whose numbers are integers of 64 bits. -/
def plainDoubles : Doubles where
  read := some
  readInt := fun _ => ⟨"0.0".toList, by decide⟩
  read_read := fun _ _ _ => rfl
  read_readInt := fun _ => rfl

end AgentHub.Json
