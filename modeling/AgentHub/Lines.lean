import Mathlib.Data.List.Infix

/-!
# Files of lines

A file that is appended to line by line: whole lines, each with a separator behind it, and what an
append that was cut off left after them.  `splitOn_lines` reads such a file back, and `cut_lines` says
that a front of one is one.
-/

namespace AgentHub.Lines

variable {β : Type*}

/-- The lines, each with the separator behind it. -/
def joined (sep : β) (lines : List (List β)) : List β := lines.flatMap (· ++ [sep])

@[simp]
theorem joined_nil (sep : β) : joined sep [] = [] := rfl

@[simp]
theorem joined_cons (sep : β) (line : List β) (lines : List (List β)) :
    joined sep (line :: lines) = line ++ sep :: joined sep lines := by
  rw [joined, List.flatMap_cons, List.append_assoc]
  rfl

theorem joined_append (sep : β) (lines more : List (List β)) :
    joined sep (lines ++ more) = joined sep lines ++ joined sep more := List.flatMap_append

/-- A file of whole lines ends in the separator. -/
theorem getLast?_joined {sep : β} {lines : List (List β)} (h : lines ≠ []) :
    (joined sep lines).getLast? = some sep := by
  cases lines using List.reverseRecOn with
  | nil => exact absurd rfl h
  | append_singleton lines line =>
    rw [joined_append, joined_cons, joined_nil, ← List.append_assoc, List.getLast?_concat]

variable [BEq β] [LawfulBEq β]

/-- Splitting gives the lines, and then what is behind the last separator. -/
theorem splitOn_lines {sep : β} {lines : List (List β)} {part : List β}
    (hlines : ∀ line ∈ lines, sep ∉ line) (hpart : sep ∉ part) :
    (joined sep lines ++ part).splitOn sep = lines ++ [part] := by
  induction lines with
  | nil => exact List.splitOn_eq_singleton hpart
  | cons line lines ih =>
    rw [joined_cons, List.append_assoc, List.cons_append,
      List.splitOn_append_cons_self_of_not_mem (hlines line List.mem_cons_self),
      ih fun other hother => hlines other (List.mem_cons_of_mem _ hother)]
    rfl

omit [BEq β] [LawfulBEq β] in
/-- A front of a file is some whole lines and a part without a separator. -/
theorem cut_lines {sep : β} {lines : List (List β)} (hlines : ∀ line ∈ lines, sep ∉ line)
    {part : List β} (hpart : sep ∉ part) {front : List β} (hfront : front <+: joined sep lines ++ part) :
    ∃ k rest, k ≤ lines.length ∧ sep ∉ rest ∧ front = joined sep (lines.take k) ++ rest := by
  induction lines generalizing front with
  | nil => exact ⟨0, front, Nat.le_refl _, fun hmem => hpart (hfront.subset hmem), rfl⟩
  | cons line lines ih =>
    have hline : sep ∉ line := hlines line List.mem_cons_self
    have hcons : joined sep (line :: lines) ++ part = (line ++ [sep]) ++ (joined sep lines ++ part) := by
      simp
    rw [hcons] at hfront
    rcases List.prefix_or_prefix_of_prefix hfront (List.prefix_append _ _) with hshort | ⟨rest, rfl⟩
    · rcases List.prefix_concat_iff.1 hshort with rfl | hbody
      · exact ⟨1, [], by simp, by simp, by simp⟩
      · exact ⟨0, front, Nat.zero_le _, fun hmem => hline (hbody.subset hmem), rfl⟩
    · obtain ⟨k, part', hk, hpart', rfl⟩ :=
        ih (fun other hother => hlines other (List.mem_cons_of_mem _ hother))
          ((List.prefix_append_right_inj _).1 hfront)
      exact ⟨k + 1, part', by simpa using hk, hpart', by simp⟩

end AgentHub.Lines
