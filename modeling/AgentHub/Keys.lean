import Mathlib.Data.List.Basic

/-!
# Keys made of two names

A key that joins two names with a colon does not say where the first name ends: a colon of a name is
read as the one between the names.  `joined_eq_iff` says which pairs of names have one key.
-/

namespace AgentHub.Keys

/-- The second pair has its colon at a later one of the first pair: `x` and `y:z`, then `x:y`
and `z`. -/
def Shift (first second first' second' : String) : Prop :=
  ∃ middle, first' = first ++ ":" ++ middle ∧ second = middle ++ ":" ++ second'

/-- Names without a colon are no shift of others. -/
theorem Shift.colon {first second first' second' : String} (h : Shift first second first' second') :
    ':' ∈ first'.toList := by
  obtain ⟨middle, rfl, -⟩ := h
  simp

/-- A pair is no shift of itself. -/
theorem Shift.ne {pair pair' : String × String} (h : Shift pair.1 pair.2 pair'.1 pair'.2) :
    pair ≠ pair' := by
  rintro rfl
  obtain ⟨middle, hfirst, -⟩ := h
  have hlength := congrArg (fun s : String => s.toList.length) hfirst
  simp at hlength

/-- Two pairs of names under one key are the same or one is a shift of the other. -/
theorem joined_eq_iff {first second first' second' : String} :
    first ++ ":" ++ second = first' ++ ":" ++ second' ↔
      (first = first' ∧ second = second') ∨ Shift first second first' second' ∨
        Shift first' second' first second := by
  constructor
  · intro h
    have hchars : first.toList ++ (':' :: second.toList) =
        first'.toList ++ (':' :: second'.toList) := by
      have := congrArg String.toList h
      simpa using this
    -- one of the first parts is a prefix of the other
    rcases List.append_eq_append_iff.1 hchars with ⟨cs, hfirst, hsecond⟩ | ⟨cs, hfirst, hsecond⟩
    · rcases cs with _ | ⟨c, cs⟩
      · left
        constructor
        · exact String.toList_injective (by simpa using hfirst.symm)
        · exact String.toList_injective (by simpa using hsecond)
      · right; left
        obtain ⟨rfl, hsecond⟩ := List.cons.inj hsecond
        exact ⟨String.ofList cs, String.toList_injective (by simpa using hfirst),
          String.toList_injective (by simpa using hsecond)⟩
    · rcases cs with _ | ⟨c, cs⟩
      · left
        constructor
        · exact String.toList_injective (by simpa using hfirst)
        · exact String.toList_injective (by simpa using hsecond.symm)
      · right; right
        obtain ⟨rfl, hsecond⟩ := List.cons.inj hsecond
        exact ⟨String.ofList cs, String.toList_injective (by simpa using hfirst),
          String.toList_injective (by simpa using hsecond)⟩
  · rintro (⟨rfl, rfl⟩ | ⟨m, rfl, rfl⟩ | ⟨m, rfl, rfl⟩)
    · rfl
    · simp only [String.append_assoc]
    · simp only [String.append_assoc]

end AgentHub.Keys
