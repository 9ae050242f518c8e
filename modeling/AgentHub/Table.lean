import Mathlib.Data.List.Pairwise

/-!
# Tables with a primary key

A `Table` keeps at most one row of each key.  Writing a row replaces the one that has its key;
`mem_put` and `mem_delete` say what is in the table afterwards.
-/

namespace AgentHub

/-- Rows `ρ` with pairwise different keys. -/
structure Table (ρ κ : Type*) (key : ρ → κ) where
  rows : List ρ
  unique : rows.Pairwise fun a b => key a ≠ key b

namespace Table

variable {ρ κ : Type*} {key : ρ → κ}

def empty : Table ρ κ key := ⟨[], List.Pairwise.nil⟩

/-- Two rows of one key are the same row. -/
theorem eq_of_key (t : Table ρ κ key) {a b : ρ} (ha : a ∈ t.rows) (hb : b ∈ t.rows)
    (h : key a = key b) : a = b := by
  by_contra hne
  have hsymm : Std.Symm fun x y : ρ => key x ≠ key y := ⟨fun _ _ hxy => Ne.symm hxy⟩
  exact t.unique.forall ha hb hne h

variable [DecidableEq κ]

/-- The row with a key, if there is one. -/
def get? (t : Table ρ κ key) (k : κ) : Option ρ := t.rows.find? fun row => key row = k

/-- Remove the row with a key. -/
def delete (t : Table ρ κ key) (k : κ) : Table ρ κ key where
  rows := t.rows.filter fun row => key row ≠ k
  unique := t.unique.filter _

/-- Write a row over the one with its key. -/
def put (t : Table ρ κ key) (row : ρ) : Table ρ κ key where
  rows := (t.delete (key row)).rows ++ [row]
  unique := List.pairwise_append.2 ⟨(t.delete (key row)).unique, List.pairwise_singleton _ _, by
    intro a ha b hb
    rw [List.mem_singleton.1 hb]
    simpa using (List.mem_filter.1 ha).2⟩

@[simp] theorem mem_delete {t : Table ρ κ key} {k : κ} {row : ρ} :
    row ∈ (t.delete k).rows ↔ row ∈ t.rows ∧ key row ≠ k := by
  simp [delete]

@[simp] theorem mem_put {t : Table ρ κ key} {new row : ρ} :
    row ∈ (t.put new).rows ↔ (row ∈ t.rows ∧ key row ≠ key new) ∨ row = new := by
  simp [put]

/-- A row with a new key comes behind the others. -/
theorem rows_put {t : Table ρ κ key} {new : ρ} (h : ∀ row ∈ t.rows, key row ≠ key new) :
    (t.put new).rows = t.rows ++ [new] := by
  have hall : t.rows.filter (fun row => key row ≠ key new) = t.rows :=
    List.filter_eq_self.2 fun row hrow => decide_eq_true (h row hrow)
  simp only [put, delete, hall]

/-- Several keys are removed one after the other. -/
theorem mem_foldl_delete {ks : List κ} {t : Table ρ κ key} {row : ρ} :
    row ∈ (ks.foldl delete t).rows ↔ row ∈ t.rows ∧ key row ∉ ks := by
  induction ks generalizing t with
  | nil => simp
  | cons k ks ih =>
    rw [List.foldl_cons, ih, mem_delete, List.mem_cons, not_or, and_assoc]

/-- Several rows are written one after the other. -/
theorem mem_of_mem_foldl_put {rows : List ρ} {t : Table ρ κ key} {row : ρ}
    (h : row ∈ (rows.foldl put t).rows) : row ∈ t.rows ∨ row ∈ rows := by
  induction rows generalizing t with
  | nil => exact .inl h
  | cons new rows ih =>
    rcases ih h with hput | hrow
    · rcases mem_put.1 hput with ⟨hold, -⟩ | rfl
      · exact .inl hold
      · exact .inr List.mem_cons_self
    · exact .inr (List.mem_cons_of_mem _ hrow)

theorem get?_eq_some {t : Table ρ κ key} {k : κ} {row : ρ} :
    t.get? k = some row ↔ row ∈ t.rows ∧ key row = k := by
  constructor
  · intro h
    exact ⟨List.mem_of_find?_eq_some h, by simpa using List.find?_some h⟩
  · rintro ⟨hmem, hkey⟩
    have hsome : (t.get? k).isSome := by
      rw [get?, List.find?_isSome]
      exact ⟨row, hmem, by simpa using hkey⟩
    obtain ⟨other, hother⟩ := Option.isSome_iff_exists.1 hsome
    have hkey' : key other = k := by simpa using List.find?_some hother
    rw [hother, t.eq_of_key (List.mem_of_find?_eq_some hother) hmem (hkey'.trans hkey.symm)]

theorem get?_put (t : Table ρ κ key) (row : ρ) (k : κ) :
    (t.put row).get? k = if k = key row then some row else t.get? k := by
  apply Option.ext
  intro other
  by_cases hk : k = key row
  · rw [if_pos hk, get?_eq_some, mem_put, hk, Option.some.injEq]
    constructor
    · rintro ⟨⟨-, hne⟩ | rfl, hkey⟩
      · exact absurd hkey hne
      · rfl
    · rintro rfl
      exact ⟨.inr rfl, rfl⟩
  · rw [if_neg hk, get?_eq_some, get?_eq_some, mem_put]
    constructor
    · rintro ⟨⟨hmem, -⟩ | rfl, hkey⟩
      · exact ⟨hmem, hkey⟩
      · exact absurd hkey.symm hk
    · rintro ⟨hmem, hkey⟩
      exact ⟨.inl ⟨hmem, fun h => hk (hkey.symm.trans h)⟩, hkey⟩

end Table

end AgentHub
