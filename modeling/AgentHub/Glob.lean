import Mathlib.Data.List.Basic
import Mathlib.Data.List.Infix

/-!
# Glob patterns

The patterns a key-value store filters its keys by: `*` is any text, `?` any byte, `[...]` one of a
class of bytes, with ranges and a leading `^` for its complement, and a backslash takes the byte after
it as it is.  A class that is not closed ends with the pattern.  `globMatch_literal` is what a pattern
says that has none of these but a last `*`.
-/

namespace AgentHub.Glob

/-- The ranges of a class, and whether it is the complement that is meant. -/
structure ByteClass where
  negated : Bool
  ranges : List (UInt8 × UInt8)
  deriving DecidableEq

def ByteClass.add (cls : ByteClass) (first last : UInt8) : ByteClass :=
  { cls with ranges := (first, last) :: cls.ranges }

/-- A range is one between its ends, whichever is given first. -/
def ByteClass.contains (cls : ByteClass) (b : UInt8) : Bool :=
  (cls.ranges.any fun r => (r.1 ≤ b && b ≤ r.2) || (r.2 ≤ b && b ≤ r.1)) != cls.negated

inductive Piece where
  | star
  | any
  | oneOf (cls : ByteClass)
  | byte (b : UInt8)
  deriving DecidableEq

/-- `*`, `?`, `[` and the backslash. -/
def specialBytes : List UInt8 := [42, 63, 91, 92]

/-- The pieces of a pattern, inside a class if one is open. -/
def parse : Option ByteClass → List UInt8 → List Piece
  | none, [] => []
  | none, [b] =>
    if b = 42 then [.star]
    else if b = 63 then [.any]
    else if b = 91 then [.oneOf ⟨false, []⟩]
    else [.byte b]
  | none, b :: c :: rest =>
    if b = 42 then .star :: parse none (c :: rest)
    else if b = 63 then .any :: parse none (c :: rest)
    else if b = 91 then
      -- `^`
      if c = 94 then parse (some ⟨true, []⟩) rest else parse (some ⟨false, []⟩) (c :: rest)
    else if b = 92 then .byte c :: parse none rest
    else .byte b :: parse none (c :: rest)
  | some cls, [] => [.oneOf cls]
  -- `]` closes the class
  | some cls, [b] => if b = 93 then [.oneOf cls] else [.oneOf (cls.add b b)]
  | some cls, [b, c] =>
    if b = 92 then [.oneOf (cls.add c c)]
    else if b = 93 then .oneOf cls :: parse none [c]
    else parse (some (cls.add b b)) [c]
  | some cls, b :: c :: d :: rest =>
    if b = 92 then parse (some (cls.add c c)) (d :: rest)
    else if b = 93 then .oneOf cls :: parse none (c :: d :: rest)
    else if c = 45 then parse (some (cls.add b d)) rest
    else parse (some (cls.add b b)) (c :: d :: rest)

/-- A text is one the pieces describe. -/
def matchPieces : List Piece → List UInt8 → Bool
  | [], text => text.isEmpty
  | .star :: pieces, text => text.tails.any (matchPieces pieces)
  | .any :: pieces, _ :: text => matchPieces pieces text
  | .oneOf cls :: pieces, b :: text => cls.contains b && matchPieces pieces text
  | .byte c :: pieces, b :: text => b == c && matchPieces pieces text
  | _ :: _, [] => false

def globMatch (pattern text : List UInt8) : Bool := matchPieces (parse none pattern) text

/-! ### Literal patterns -/

theorem parse_literal_cons {b : UInt8} (hb : b ∉ specialBytes) (rest : List UInt8) :
    parse none (b :: rest) = .byte b :: parse none rest := by
  simp only [specialBytes, List.mem_cons, List.not_mem_nil, or_false, not_or] at hb
  cases rest with
  | nil => simp only [parse, hb, if_false]
  | cons c rest => simp only [parse, hb, if_false]

theorem matchPieces_star (text : List UInt8) : matchPieces [.star] text = true := by
  rw [matchPieces, List.any_eq_true]
  exact ⟨[], (List.mem_tails _ _).2 List.nil_suffix, rfl⟩

/-- A literal front and a last `*` match what has that front. -/
theorem globMatch_literal {front : List UInt8} (hfront : ∀ b ∈ front, b ∉ specialBytes)
    (text : List UInt8) : globMatch (front ++ [42]) text = true ↔ front <+: text := by
  induction front generalizing text with
  | nil =>
    have hstar : parse none [42] = [Piece.star] := by decide
    rw [List.nil_append, globMatch, hstar, matchPieces_star]
    simp
  | cons b front ih =>
    rw [List.cons_append, globMatch, parse_literal_cons (hfront b List.mem_cons_self)]
    cases text with
    | nil => simp [matchPieces]
    | cons c text =>
      rw [matchPieces, Bool.and_eq_true, beq_iff_eq, List.cons_prefix_cons,
        ← ih (fun d hd => hfront d (List.mem_cons_of_mem _ hd)), globMatch]
      exact and_congr_left fun _ => eq_comm

end AgentHub.Glob
