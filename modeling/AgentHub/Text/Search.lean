import AgentHub.Text

/-!
# Searches in a text

A text contains a pattern exactly when the pattern is a segment of it (`contains_iff`), and blanks
that are trimmed away hold no pattern that begins and ends with another character
(`infix_trimmed`).
-/

namespace AgentHub.Text

/-! ### Patterns -/

theorem containsChars_iff {pat cs : List Char} : containsChars pat cs = true ↔ pat <:+: cs := by
  induction cs with
  | nil => simp [containsChars, List.infix_nil]
  | cons c cs ih =>
    rw [containsChars, Bool.or_eq_true, ih, List.isPrefixOf_iff_prefix, List.infix_cons_iff]

theorem contains_iff {s pat : String} : contains s pat = true ↔ pat.toList <:+: s.toList :=
  containsChars_iff

theorem containsChar_iff {s : String} {c : Char} : containsChar s c = true ↔ c ∈ s.toList := by
  simp [containsChar]

/-! ### Trimmed texts -/

section Trimmed

variable {p : Char → Bool} {pat cs : List Char}

theorem infix_dropWhile (hne : pat ≠ []) (hhead : ∀ c ∈ pat.head?, p c = false) :
    pat <:+: cs.dropWhile p ↔ pat <:+: cs := by
  constructor
  · intro h
    exact h.trans (List.dropWhile_suffix p).isInfix
  · intro h
    induction cs with
    | nil => exact h
    | cons c cs ih =>
      rw [List.dropWhile_cons]
      split
      · rename_i hc
        rcases List.infix_cons_iff.1 h with hprefix | hinfix
        · -- The pattern begins here, so this character is no blank.
          obtain ⟨rest, hrest⟩ := hprefix
          cases pat with
          | nil => exact absurd rfl hne
          | cons d pat =>
            obtain ⟨rfl, -⟩ := List.cons.inj hrest
            rw [hhead d rfl] at hc
            cases hc
        · exact ih hinfix
      · exact h

/-- **A pattern between blanks.**  Trimming takes nothing of it away. -/
theorem infix_trimmed (hne : pat ≠ []) (hhead : ∀ c ∈ pat.head?, p c = false)
    (hlast : ∀ c ∈ pat.getLast?, p c = false) :
    pat <:+: ((cs.dropWhile p).reverse.dropWhile p).reverse ↔ pat <:+: cs := by
  have hreverse : pat.reverse <:+: (cs.dropWhile p).reverse.dropWhile p ↔
      pat.reverse <:+: (cs.dropWhile p).reverse := by
    refine infix_dropWhile (by simpa using hne) fun c hc => hlast c ?_
    rwa [List.head?_reverse] at hc
  rw [← List.reverse_infix, List.reverse_reverse, hreverse, List.reverse_infix,
    infix_dropWhile hne hhead]

end Trimmed

/-- What is left of a text has no blanks at its front either. -/
theorem dropWhile_trimmed (p : Char → Bool) (cs : List Char) :
    ((cs.dropWhile p).reverse.dropWhile p).reverse.dropWhile p =
      ((cs.dropWhile p).reverse.dropWhile p).reverse := by
  have hprefix : ((cs.dropWhile p).reverse.dropWhile p).reverse <+: cs.dropWhile p := by
    have hsuffix := List.dropWhile_suffix p (l := (cs.dropWhile p).reverse)
    have hreverse := List.reverse_prefix.2 hsuffix
    rwa [List.reverse_reverse] at hreverse
  -- it is a front part of a list that begins with no blank
  generalize ((cs.dropWhile p).reverse.dropWhile p).reverse = front at hprefix ⊢
  obtain ⟨rest, hrest⟩ := hprefix
  cases front with
  | nil => rfl
  | cons c front =>
    have hhead := List.head?_dropWhile_not p cs
    rw [← hrest] at hhead
    exact List.dropWhile_cons_of_neg (by simpa using hhead)

theorem trim_trim (s : String) : trim (trim s) = trim s := by
  unfold trim trimChars
  rw [String.toList_ofList, dropWhile_trimmed, List.reverse_reverse, dropWhile_trimmed]

end AgentHub.Text
