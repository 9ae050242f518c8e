import Mathlib.Algebra.Group.Nat.Defs
import Mathlib.Data.List.TakeWhile
import Mathlib.Data.Nat.Basic

/-!
# Framed fields

A list of byte strings is written as one, each behind its length.  Where the lengths are written in
words of one width that tell numbers below a limit apart, the fields can be read back, so no two lists
of fields below the limit are written alike.  A reader that has to know where a run of items ends
without a length needs the item after it to be of another kind (`append_inj_of_stop`).
-/

namespace AgentHub.Framing

/-- How a length is written. -/
structure LengthCode (β : Type) where
  write : Nat → List β
  width : Nat
  width_pos : 0 < width
  /-- The lengths that are told apart. -/
  limit : Nat
  length_write : ∀ n, (write n).length = width
  injective : ∀ m n, m < limit → n < limit → write m = write n → m = n

namespace LengthCode

variable {β : Type} (code : LengthCode β)

/-- The fields in order, each behind its length. -/
def frame (fields : List (List β)) : List β :=
  fields.flatMap fun field => code.write field.length ++ field

@[simp]
theorem frame_nil : code.frame [] = [] := rfl

@[simp]
theorem frame_cons (field : List β) (fields : List (List β)) :
    code.frame (field :: fields) = code.write field.length ++ (field ++ code.frame fields) := by
  rw [frame, List.flatMap_cons, List.append_assoc]
  rfl

theorem frame_cons_ne_nil (field : List β) (fields : List (List β)) :
    code.frame (field :: fields) ≠ [] := by
  intro h
  have hlength := congrArg List.length h
  rw [frame_cons, List.length_append, code.length_write, List.length_nil] at hlength
  have := code.width_pos
  omega

/-- Lists of fields below the limit that are written alike are one list. -/
theorem frame_injective {fields : List (List β)} : ∀ {fields' : List (List β)},
    (∀ f ∈ fields, f.length < code.limit) → (∀ f ∈ fields', f.length < code.limit) →
    code.frame fields = code.frame fields' → fields = fields' := by
  induction fields with
  | nil =>
    intro fields' _ _ h
    cases fields' with
    | nil => rfl
    | cons f' fs' => exact absurd h.symm (code.frame_cons_ne_nil f' fs')
  | cons f fs ih =>
    intro fields' hbelow hbelow' h
    cases fields' with
    | nil => exact absurd h (code.frame_cons_ne_nil f fs)
    | cons f' fs' =>
      rw [frame_cons, frame_cons] at h
      obtain ⟨hword, hrest⟩ := List.append_inj h (by rw [code.length_write, code.length_write])
      have hlength : f.length = f'.length :=
        code.injective _ _ (hbelow f List.mem_cons_self) (hbelow' f' List.mem_cons_self) hword
      obtain ⟨hfield, htail⟩ := List.append_inj hrest hlength
      rw [hfield, ih (fun g hg => hbelow g (List.mem_cons_of_mem _ hg))
        (fun g hg => hbelow' g (List.mem_cons_of_mem _ hg)) htail]

end LengthCode

/-! ### Words -/

/-- The bytes of a word, the lowest first. -/
def leBytes : Nat → Nat → List UInt8
  | 0, _ => []
  | width + 1, n => UInt8.ofNat n :: leBytes width (n / 256)

@[simp]
theorem length_leBytes (width n : Nat) : (leBytes width n).length = width := by
  induction width generalizing n with
  | zero => rfl
  | succ width ih => rw [leBytes, List.length_cons, ih]

theorem leBytes_injective {width : Nat} : ∀ {m n : Nat}, m < 256 ^ width → n < 256 ^ width →
    leBytes width m = leBytes width n → m = n := by
  induction width with
  | zero =>
    intro m n hm hn _
    rw [Nat.pow_zero] at hm hn
    omega
  | succ width ih =>
    intro m n hm hn h
    obtain ⟨hlow, hhigh⟩ := List.cons.inj h
    have hmod : m % 256 = n % 256 := by
      simpa using congrArg UInt8.toNat hlow
    rw [Nat.pow_succ] at hm hn
    have hdiv := ih (Nat.div_lt_of_lt_mul (by omega)) (Nat.div_lt_of_lt_mul (by omega)) hhigh
    omega

/-- Lengths in little-endian words. -/
def little (width : Nat) (h : 0 < width) : LengthCode UInt8 where
  write := leBytes width
  width := width
  width_pos := h
  limit := 256 ^ width
  length_write := length_leBytes width
  injective := fun _ _ => leBytes_injective

/-- Lengths in big-endian words. -/
def big (width : Nat) (h : 0 < width) : LengthCode UInt8 where
  write n := (leBytes width n).reverse
  width := width
  width_pos := h
  limit := 256 ^ width
  length_write n := by rw [List.length_reverse, length_leBytes]
  injective _ _ hm hn h := leBytes_injective hm hn (List.reverse_inj.1 h)

/-! ### Runs without a length -/

/-- Where each run ends at the first item of another kind, the runs are read back. -/
theorem append_inj_of_stop {α : Type} {p : α → Prop} {run run' rest rest' : List α}
    (hrun : ∀ x ∈ run, p x) (hrun' : ∀ x ∈ run', p x) (hrest : ∀ x ∈ rest.head?, ¬p x)
    (hrest' : ∀ x ∈ rest'.head?, ¬p x) (h : run ++ rest = run' ++ rest') :
    run = run' ∧ rest = rest' := by
  induction run generalizing run' with
  | nil =>
    cases run' with
    | nil => exact ⟨rfl, h⟩
    | cons y run' =>
      rw [List.nil_append] at h
      subst h
      exact absurd (hrun' y List.mem_cons_self) (hrest y rfl)
  | cons x run ih =>
    cases run' with
    | nil =>
      rw [List.nil_append] at h
      subst h
      exact absurd (hrun x List.mem_cons_self) (hrest' x rfl)
    | cons y run' =>
      obtain ⟨rfl, htail⟩ := List.cons.inj h
      obtain ⟨rfl, hrests⟩ := ih (fun z hz => hrun z (List.mem_cons_of_mem _ hz))
        (fun z hz => hrun' z (List.mem_cons_of_mem _ hz)) htail
      exact ⟨rfl, hrests⟩

end AgentHub.Framing
