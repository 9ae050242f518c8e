import AgentHub.Json.Equiv.Document
import AgentHub.Json.Equiv.RoundTrip
import Mathlib.Data.String.Basic

/-!
# The form a document is read into

A document that was read has the keys of every object in strictly ascending order
(`document_sortedKeys`), and reading it again changes nothing (`document_idem`).  Its nesting is that
of the text at most.
-/

namespace AgentHub.Json

variable {d : Doubles}

/-! ### Objects in order -/

namespace Fields

/-- The keys ascend strictly. -/
def Sorted (m : Fields) : Prop := m.Pairwise fun a b => a.1 < b.1

theorem mem_insert {m : Fields} {key : String} {v : Value} {kv : String × Value}
    (h : kv ∈ insert m key v) : kv = (key, v) ∨ kv ∈ m := by
  induction m with
  | nil => exact Or.inl (List.mem_singleton.1 h)
  | cons first m ih =>
    obtain ⟨k, w⟩ := first
    rw [insert] at h
    split at h
    · rcases List.mem_cons.1 h with h | h
      · exact Or.inl h
      · exact Or.inr h
    · split at h
      · rcases List.mem_cons.1 h with h | h
        · exact Or.inl h
        · exact Or.inr (List.mem_cons_of_mem _ h)
      · rcases List.mem_cons.1 h with h | h
        · exact Or.inr (h ▸ List.mem_cons_self)
        · exact (ih h).imp_right (List.mem_cons_of_mem _)

theorem Sorted.insert {m : Fields} (h : m.Sorted) (key : String) (v : Value) :
    (Fields.insert m key v).Sorted := by
  induction m with
  | nil => exact List.pairwise_singleton _ _
  | cons first m ih =>
    obtain ⟨k, w⟩ := first
    obtain ⟨hfirst, hrest⟩ := List.pairwise_cons.1 h
    rw [Fields.insert]
    split
    -- the new key comes before the first one
    case isTrue hlt =>
      refine List.pairwise_cons.2 ⟨?_, h⟩
      intro kv hkv
      rcases List.mem_cons.1 hkv with rfl | hkv
      · exact hlt
      · exact hlt.trans (hfirst kv hkv)
    case isFalse hnot =>
      split
      -- the key is the first one: its value is replaced
      case isTrue heq =>
        subst heq
        exact List.pairwise_cons.2 ⟨hfirst, hrest⟩
      case isFalse hne =>
        refine List.pairwise_cons.2 ⟨?_, ih hrest⟩
        intro kv hkv
        rcases mem_insert hkv with rfl | hkv
        · exact lt_of_le_of_ne (not_lt.1 hnot) (Ne.symm hne)
        · exact hfirst kv hkv

theorem sorted_foldl_insert (kvs : List (String × Value)) {m : Fields} (h : m.Sorted) :
    Sorted (kvs.foldl (fun m kv => Fields.insert m kv.1 kv.2) m) := by
  induction kvs generalizing m with
  | nil => exact h
  | cons kv kvs ih => exact ih (h.insert kv.1 kv.2)

theorem sorted_ofPairs (kvs : List (String × Value)) : (ofPairs kvs).Sorted :=
  sorted_foldl_insert kvs List.Pairwise.nil

theorem mem_foldl_insert {kvs : List (String × Value)} {m : Fields} {kv : String × Value}
    (h : kv ∈ kvs.foldl (fun m kv => insert m kv.1 kv.2) m) : kv ∈ kvs ∨ kv ∈ m := by
  induction kvs generalizing m with
  | nil => exact Or.inr h
  | cons first kvs ih =>
    rcases ih h with h | h
    · exact Or.inl (List.mem_cons_of_mem _ h)
    · rcases mem_insert h with rfl | h
      · exact Or.inl List.mem_cons_self
      · exact Or.inr h

theorem mem_of_mem_ofPairs {kvs : List (String × Value)} {kv : String × Value}
    (h : kv ∈ ofPairs kvs) : kv ∈ kvs :=
  (mem_foldl_insert h).resolve_right (by simp)

/-- A key beyond all others goes to the end. -/
theorem insert_of_lt {m : Fields} {key : String} (h : ∀ kv ∈ m, kv.1 < key) (v : Value) :
    insert m key v = m ++ [(key, v)] := by
  induction m with
  | nil => rfl
  | cons first m ih =>
    obtain ⟨k, w⟩ := first
    have hlt : k < key := h (k, w) List.mem_cons_self
    rw [insert, if_neg hlt.not_gt, if_neg hlt.ne', ih fun kv hkv => h kv (List.mem_cons_of_mem _ hkv)]
    rfl

theorem foldl_insert_of_sorted {m kvs : Fields} (h : (m ++ kvs).Sorted) :
    kvs.foldl (fun m kv => insert m kv.1 kv.2) m = m ++ kvs := by
  induction kvs generalizing m with
  | nil => rw [List.foldl_nil, List.append_nil]
  | cons first kvs ih =>
    obtain ⟨k, w⟩ := first
    have hlt : ∀ kv ∈ m, kv.1 < k :=
      fun kv hkv => (List.pairwise_append.1 h).2.2 kv hkv (k, w) List.mem_cons_self
    rw [List.foldl_cons, insert_of_lt hlt, ih, List.append_assoc, List.singleton_append]
    rw [List.append_assoc, List.singleton_append]
    exact h

/-- Fields in order stay as they are. -/
theorem Sorted.ofPairs_eq {m : Fields} (h : m.Sorted) : ofPairs m = m :=
  foldl_insert_of_sorted (m := []) h

theorem Sorted.keys_nodup {m : Fields} (h : m.Sorted) : (m.map Prod.fst).Nodup := by
  rw [List.Nodup, List.pairwise_map]
  exact h.imp fun hlt => hlt.ne

end Fields

/-! ### Documents in order -/

mutual

/-- The keys of every object ascend. -/
def Value.SortedKeys : Value → Prop
  | .arr items => sortedItems items
  | .obj fields => Fields.Sorted fields ∧ sortedFields fields
  | _ => True

def sortedItems : List Value → Prop
  | [] => True
  | v :: vs => v.SortedKeys ∧ sortedItems vs

def sortedFields : List (String × Value) → Prop
  | [] => True
  | (_, v) :: vs => v.SortedKeys ∧ sortedFields vs

end

theorem sortedFields_iff {fields : Fields} :
    sortedFields fields ↔ ∀ kv ∈ fields, kv.2.SortedKeys := by
  induction fields with
  | nil => simp [sortedFields]
  | cons kv fields ih => simp [sortedFields, ih]

theorem documentFields_of_fixed {fields : Fields}
    (h : ∀ kv ∈ fields, document d kv.2 = some kv.2) : documentFields d fields = some fields := by
  induction fields with
  | nil => rfl
  | cons first fields ih =>
    obtain ⟨k, v⟩ := first
    rw [documentFields, h (k, v) List.mem_cons_self,
      ih fun kv hkv => h kv (List.mem_cons_of_mem _ hkv)]
    rfl

mutual

theorem document_sortedKeys {v w : Value} (h : document d v = some w) : w.SortedKeys := by
  cases v with
  | int n =>
    rw [document] at h
    obtain rfl := Option.some.inj h
    split <;> trivial
  | float x =>
    rw [document, Option.map_eq_some_iff] at h
    obtain ⟨y, -, rfl⟩ := h
    trivial
  | arr items =>
    rw [document, Option.map_eq_some_iff] at h
    obtain ⟨items', hitems, rfl⟩ := h
    exact documentItems_sorted hitems
  | obj fields =>
    rw [document, Option.map_eq_some_iff] at h
    obtain ⟨fields', hfields, rfl⟩ := h
    refine ⟨Fields.sorted_ofPairs fields', sortedFields_iff.2 ?_⟩
    intro kv hkv
    exact documentFields_sorted hfields kv (Fields.mem_of_mem_ofPairs hkv)
  | null | bool b | str s =>
    obtain rfl := Option.some.inj h
    trivial

theorem documentItems_sorted {items items' : List Value} (h : documentItems d items = some items') :
    sortedItems items' := by
  cases items with
  | nil =>
    obtain rfl : [] = items' := Option.some.inj h
    trivial
  | cons v items =>
    simp only [documentItems, Option.bind_eq_bind, Option.bind_eq_some_iff, Option.pure_def,
      Option.some.injEq] at h
    obtain ⟨w, hw, rest, hrest, rfl⟩ := h
    exact ⟨document_sortedKeys hw, documentItems_sorted hrest⟩

theorem documentFields_sorted {fields fields' : Fields}
    (h : documentFields d fields = some fields') : ∀ kv ∈ fields', kv.2.SortedKeys := by
  cases fields with
  | nil =>
    obtain rfl : [] = fields' := Option.some.inj h
    simp
  | cons first fields =>
    obtain ⟨k, v⟩ := first
    simp only [documentFields, Option.bind_eq_bind, Option.bind_eq_some_iff, Option.pure_def,
      Option.some.injEq] at h
    obtain ⟨w, hw, rest, hrest, rfl⟩ := h
    intro kv hkv
    rcases List.mem_cons.1 hkv with rfl | hkv
    · exact document_sortedKeys hw
    · exact documentFields_sorted hrest kv hkv

end

mutual

/-- **Reading a document again changes nothing.** -/
theorem document_idem {v w : Value} (h : document d v = some w) : document d w = some w := by
  cases v with
  | int n =>
    rw [document] at h
    obtain rfl := Option.some.inj h
    by_cases hn : isMachineInt n
    · rw [if_pos hn, document, if_pos hn]
    · rw [if_neg hn, document, d.read_readInt]
      rfl
  | float x =>
    rw [document, Option.map_eq_some_iff] at h
    obtain ⟨y, hy, rfl⟩ := h
    rw [document, d.read_read x y hy]
    rfl
  | arr items =>
    rw [document, Option.map_eq_some_iff] at h
    obtain ⟨items', hitems, rfl⟩ := h
    rw [document, documentItems_idem hitems]
    rfl
  | obj fields =>
    rw [document, Option.map_eq_some_iff] at h
    obtain ⟨fields', hfields, rfl⟩ := h
    -- the fields were documents already, and their keys sorted
    have hfixed : documentFields d (Fields.ofPairs fields') = some (Fields.ofPairs fields') :=
      documentFields_of_fixed fun kv hkv =>
        documentFields_idem hfields kv (Fields.mem_of_mem_ofPairs hkv)
    rw [document, hfixed, Option.map_some, (Fields.sorted_ofPairs fields').ofPairs_eq]
  | null | bool b | str s =>
    obtain rfl := Option.some.inj h
    rfl

theorem documentItems_idem {items items' : List Value} (h : documentItems d items = some items') :
    documentItems d items' = some items' := by
  cases items with
  | nil =>
    obtain rfl : [] = items' := Option.some.inj h
    rfl
  | cons v items =>
    simp only [documentItems, Option.bind_eq_bind, Option.bind_eq_some_iff, Option.pure_def,
      Option.some.injEq] at h
    obtain ⟨w, hw, rest, hrest, rfl⟩ := h
    rw [documentItems, document_idem hw, documentItems_idem hrest]
    rfl

theorem documentFields_idem {fields fields' : Fields}
    (h : documentFields d fields = some fields') : ∀ kv ∈ fields', document d kv.2 = some kv.2 := by
  cases fields with
  | nil =>
    obtain rfl : [] = fields' := Option.some.inj h
    simp
  | cons first fields =>
    obtain ⟨k, v⟩ := first
    simp only [documentFields, Option.bind_eq_bind, Option.bind_eq_some_iff, Option.pure_def,
      Option.some.injEq] at h
    obtain ⟨w, hw, rest, hrest, rfl⟩ := h
    intro kv hkv
    rcases List.mem_cons.1 hkv with rfl | hkv
    · exact document_idem hw
    · exact documentFields_idem hrest kv hkv

end

mutual

theorem document_depth {v w : Value} (h : document d v = some w) : w.depth ≤ v.depth := by
  cases v with
  | int n =>
    rw [document] at h
    obtain rfl := Option.some.inj h
    split <;> exact Nat.le_refl _
  | float x =>
    rw [document, Option.map_eq_some_iff] at h
    obtain ⟨y, -, rfl⟩ := h
    exact Nat.le_refl _
  | arr items =>
    rw [document, Option.map_eq_some_iff] at h
    obtain ⟨items', hitems, rfl⟩ := h
    exact Nat.succ_le_succ (documentItems_depth hitems)
  | obj fields =>
    rw [document, Option.map_eq_some_iff] at h
    obtain ⟨fields', hfields, rfl⟩ := h
    have hle := (depthFields_le_iff _ _).1 (documentFields_depth hfields)
    refine Nat.succ_le_succ ((depthFields_le_iff _ _).2 ?_)
    intro kv hkv
    exact hle kv (Fields.mem_of_mem_ofPairs hkv)
  | null | bool b | str s =>
    obtain rfl := Option.some.inj h
    exact Nat.le_refl _

theorem documentItems_depth {items items' : List Value} (h : documentItems d items = some items') :
    Value.depthItems items' ≤ Value.depthItems items := by
  cases items with
  | nil =>
    obtain rfl : [] = items' := Option.some.inj h
    exact Nat.le_refl _
  | cons v items =>
    simp only [documentItems, Option.bind_eq_bind, Option.bind_eq_some_iff, Option.pure_def,
      Option.some.injEq] at h
    obtain ⟨w, hw, rest, hrest, rfl⟩ := h
    exact max_le_max (document_depth hw) (documentItems_depth hrest)

theorem documentFields_depth {fields fields' : Fields}
    (h : documentFields d fields = some fields') :
    Value.depthFields fields' ≤ Value.depthFields fields := by
  cases fields with
  | nil =>
    obtain rfl : [] = fields' := Option.some.inj h
    exact Nat.le_refl _
  | cons first fields =>
    obtain ⟨k, v⟩ := first
    simp only [documentFields, Option.bind_eq_bind, Option.bind_eq_some_iff, Option.pure_def,
      Option.some.injEq] at h
    obtain ⟨w, hw, rest, hrest, rfl⟩ := h
    exact max_le_max (document_depth hw) (documentFields_depth hrest)

end

end AgentHub.Json
