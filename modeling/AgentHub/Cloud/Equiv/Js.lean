import AgentHub.Cloud.Js
import AgentHub.Json.Equiv.Document
import AgentHub.Text.Search

/-!
# Properties of a parsed document

An object with distinct keys has at every key what was there, parsed (`parse_obj`), and nothing
happens to texts.
-/

namespace AgentHub.Js

open AgentHub.Json

variable (numbers : Numbers)

/-! ### Objects -/

theorem setProperty_of_notMem {m : Fields} {key : String} (h : key ∉ m.map Prod.fst) (v : Value) :
    setProperty m key v = m ++ [(key, v)] := by
  induction m with
  | nil => rfl
  | cons kv m ih =>
    obtain ⟨k, w⟩ := kv
    simp only [List.map_cons, List.mem_cons, not_or] at h
    rw [setProperty, if_neg (Ne.symm h.1), ih h.2, List.cons_append]

/-- Properties with distinct names are set one after another. -/
theorem foldl_setProperty {kvs m : Fields} (hnodup : ((m ++ kvs).map Prod.fst).Nodup) :
    kvs.foldl (fun m kv => setProperty m kv.1 kv.2) m = m ++ kvs := by
  induction kvs generalizing m with
  | nil => rw [List.append_nil]; rfl
  | cons kv kvs ih =>
    obtain ⟨k, v⟩ := kv
    have hk : k ∉ m.map Prod.fst := by
      rw [List.map_append, List.nodup_append] at hnodup
      intro hmem
      exact hnodup.2.2 k hmem k (by simp) rfl
    rw [List.foldl_cons, setProperty_of_notMem hk, ih, List.append_assoc, List.singleton_append]
    rwa [List.append_assoc, List.singleton_append]

theorem parseFields_keys (fields : Fields) :
    (parseFields numbers fields).map Prod.fst = fields.map Prod.fst := by
  induction fields with
  | nil => rfl
  | cons kv fields ih => rw [parseFields, List.map_cons, List.map_cons, ih]

theorem parseFields_get (fields : Fields) (k : String) :
    Fields.get (parseFields numbers fields) k = (Fields.get fields k).map (parse numbers) := by
  induction fields with
  | nil => rfl
  | cons kv fields ih =>
    obtain ⟨k', v⟩ := kv
    rw [parseFields, Fields.get_cons, Fields.get_cons, ih]
    split_ifs <;> rfl

/-- **A parsed object has at every key what was there, parsed.** -/
theorem parse_obj {fields : Fields} (hnodup : (fields.map Prod.fst).Nodup) (k : String) :
    (parse numbers (.obj fields)).field? k = (Fields.get fields k).map (parse numbers) := by
  have hkeys : (([] ++ parseFields numbers fields : Fields).map Prod.fst).Nodup := by
    rw [List.nil_append, parseFields_keys]
    exact hnodup
  rw [parse, foldl_setProperty hkeys, List.nil_append, ← parseFields_get]
  rfl

/-! ### Arrays and texts -/

theorem parse_arr (items : List Value) :
    parse numbers (.arr items) = .arr (items.map (parse numbers)) := by
  rw [parse]
  congr 1
  induction items with
  | nil => rfl
  | cons v items ih => rw [parseItems, ih, List.map_cons]

@[simp] theorem parse_str (s : String) : parse numbers (.str s) = .str s := rfl

@[simp] theorem parse_bool (b : Bool) : parse numbers (.bool b) = .bool b := rfl

theorem parse_arr_str (texts : List String) :
    parse numbers (.arr (texts.map .str)) = .arr (texts.map .str) := by
  rw [parse_arr, List.map_map]
  rfl

/-! ### Trimmed texts -/

theorem trim_trim (s : String) : trim (trim s) = trim s := by
  unfold trim
  rw [String.toList_ofList, Text.dropWhile_trimmed, List.reverse_reverse, Text.dropWhile_trimmed]

end AgentHub.Js
