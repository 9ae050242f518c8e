import Mathlib.Algebra.Order.Ring.Int
import Mathlib.Data.List.Basic
import Mathlib.Data.List.Induction

/-!
# Machines driven by their environment

A `Machine` takes one input at a time and shows an observer a list of outputs.  Everything its
environment decides (a schedule, a failure, an answer) is part of the inputs, so a property of
every run is a property of every list of inputs.

`exec_induction` is the rule the safety results are proved with: what holds of the empty run and
is kept by one more input holds of every run, its state and its outputs.  `exec_of_meets` is the
same for runs whose inputs all meet a condition on the state they come in.
-/

namespace AgentHub

/-- A machine with states `σ`, inputs `ι` and outputs `ω`. -/
structure Machine (σ ι ω : Type*) where
  step : σ → ι → σ × List ω

namespace Machine

variable {σ ι ω : Type*} (M : Machine σ ι ω)

/-- Feed one more input to a run. -/
def extend (run : σ × List ω) (i : ι) : σ × List ω :=
  ((M.step run.1 i).1, run.2 ++ (M.step run.1 i).2)

/-- The state a list of inputs leads to, with all outputs on the way. -/
def exec (s : σ) (is : List ι) : σ × List ω := is.foldl M.extend (s, [])

@[simp] theorem exec_nil (s : σ) : M.exec s [] = (s, []) := rfl

theorem exec_snoc (s : σ) (is : List ι) (i : ι) :
    M.exec s (is ++ [i]) = M.extend (M.exec s is) i := by
  simp [exec]

/-- The state one more input leads to. -/
theorem exec_snoc_fst (s : σ) (is : List ι) (i : ι) :
    (M.exec s (is ++ [i])).1 = (M.step (M.exec s is).1 i).1 := by
  rw [exec_snoc]
  rfl

theorem exec_append (s : σ) (is js : List ι) :
    M.exec s (is ++ js) =
      ((M.exec (M.exec s is).1 js).1, (M.exec s is).2 ++ (M.exec (M.exec s is).1 js).2) := by
  induction js using List.reverseRecOn with
  | nil => simp
  | append_singleton js j ih =>
    rw [← List.append_assoc, exec_snoc, exec_snoc, ih]
    simp [extend]

theorem exec_cons (s : σ) (i : ι) (is : List ι) :
    M.exec s (i :: is) =
      ((M.exec (M.step s i).1 is).1, (M.step s i).2 ++ (M.exec (M.step s i).1 is).2) := by
  rw [← List.singleton_append, exec_append]
  simp [exec, extend]

/-- **The invariant rule.**  `P` may mention the inputs so far, the state and the outputs. -/
theorem exec_induction {s : σ} {P : List ι → σ → List ω → Prop} (hinit : P [] s [])
    (hstep : ∀ is t tr i, P is t tr → P (is ++ [i]) (M.step t i).1 (tr ++ (M.step t i).2))
    (is : List ι) : P is (M.exec s is).1 (M.exec s is).2 := by
  induction is using List.reverseRecOn with
  | nil => exact hinit
  | append_singleton is i ih =>
    rw [exec_snoc]
    exact hstep is _ _ i ih

/-- An output of a run was shown by one of its steps. -/
theorem mem_exec {s : σ} {is : List ι} {o : ω} :
    o ∈ (M.exec s is).2 ↔
      ∃ pre i, pre ++ [i] <+: is ∧ o ∈ (M.step (M.exec s pre).1 i).2 := by
  induction is using List.reverseRecOn with
  | nil => simp
  | append_singleton is i ih =>
    rw [exec_snoc]
    simp only [extend, List.mem_append, ih]
    constructor
    · rintro (⟨pre, j, hpre, ho⟩ | ho)
      · exact ⟨pre, j, hpre.trans (List.prefix_append _ _), ho⟩
      · exact ⟨is, i, List.prefix_rfl, ho⟩
    · rintro ⟨pre, j, hpre, ho⟩
      rcases List.prefix_concat_iff.mp hpre with hlast | hpre
      · obtain ⟨rfl, rfl⟩ : pre = is ∧ j = i := by simpa using hlast
        exact .inr ho
      · exact .inl ⟨pre, j, hpre, ho⟩

/-! ### Runs under a condition -/

/-- Every input of a run meets a condition in the state it comes in. -/
def Meets (C : σ → ι → Prop) : σ → List ι → Prop
  | _, [] => True
  | s, i :: is => C s i ∧ Meets C (M.step s i).1 is

theorem meets_of_forall {C : σ → ι → Prop} (h : ∀ s i, C s i) :
    ∀ (s : σ) (is : List ι), M.Meets C s is
  | _, [] => trivial
  | s, i :: is => ⟨h s i, meets_of_forall h (M.step s i).1 is⟩

theorem meets_append {C : σ → ι → Prop} {is js : List ι} :
    ∀ {s : σ}, M.Meets C s (is ++ js) ↔ M.Meets C s is ∧ M.Meets C (M.exec s is).1 js := by
  induction is with
  | nil =>
    intro s
    simp [Meets]
  | cons i is ih =>
    intro s
    rw [List.cons_append, Meets, Meets, ih, exec_cons, and_assoc]

theorem exec_of_meets_from {C : σ → ι → Prop} {I : σ → List ω → Prop}
    (hstep : ∀ s tr i, I s tr → C s i → I (M.step s i).1 (tr ++ (M.step s i).2)) {is : List ι} :
    ∀ {s : σ} {tr : List ω}, I s tr → M.Meets C s is →
      I (M.exec s is).1 (tr ++ (M.exec s is).2) := by
  induction is with
  | nil =>
    intro s tr hs _
    simpa using hs
  | cons i is ih =>
    intro s tr hs hmeets
    have hnext := ih (hstep s tr i hs hmeets.1) hmeets.2
    rw [exec_cons, ← List.append_assoc]
    exact hnext

/-- An invariant of the state and the outputs that the inputs meeting a condition keep. -/
theorem exec_of_meets {C : σ → ι → Prop} {I : σ → List ω → Prop}
    (hstep : ∀ s tr i, I s tr → C s i → I (M.step s i).1 (tr ++ (M.step s i).2)) {is : List ι}
    {s : σ} (hinit : I s []) (h : M.Meets C s is) : I (M.exec s is).1 (M.exec s is).2 := by
  simpa using M.exec_of_meets_from hstep hinit h

end Machine

end AgentHub
