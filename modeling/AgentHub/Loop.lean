import Mathlib.Logic.Basic

/-!
# A loop that may fail

`loop` repeats a step, which fails, gives a result or gives the next state.  `loop_total` is the rule
of total correctness: an invariant that every step keeps, and a measure that every step lowers.
-/

namespace AgentHub

variable {σ ε β : Type*}

/-- The result of a loop; none if it has not come to its end within the fuel. -/
def loop (step : σ → Except ε (σ ⊕ β)) : Nat → σ → Option (Except ε β)
  | 0, _ => none
  | fuel + 1, s =>
    match step s with
    | .error e => some (.error e)
    | .ok (.inr b) => some (.ok b)
    | .ok (.inl next) => loop step fuel next

/-- What a step is to do: go on from a state that is nearer to the end, or end as it should. -/
def Turns (I : σ → Prop) (left : σ → Nat) (Post : Except ε β → Prop) (s : σ) :
    Except ε (σ ⊕ β) → Prop
  | .error e => Post (.error e)
  | .ok (.inr b) => Post (.ok b)
  | .ok (.inl next) => I next ∧ left next < left s

/-- **Total correctness.** -/
theorem loop_total {step : σ → Except ε (σ ⊕ β)} {I : σ → Prop} {left : σ → Nat}
    {Post : Except ε β → Prop} (h : ∀ s, I s → Turns I left Post s (step s)) {s : σ} (hs : I s) :
    ∃ result, Post result ∧ ∀ fuel, left s < fuel → loop step fuel s = some result := by
  induction hn : left s using Nat.strongRecOn generalizing s with
  | ind n ih =>
    subst hn
    have hturn := h s hs
    match hstep : step s with
    | .error e =>
      rw [hstep] at hturn
      refine ⟨.error e, hturn, fun fuel hfuel => ?_⟩
      obtain ⟨fuel, rfl⟩ := Nat.exists_eq_succ_of_ne_zero (Nat.ne_zero_of_lt hfuel)
      rw [loop, hstep]
    | .ok (.inr b) =>
      rw [hstep] at hturn
      refine ⟨.ok b, hturn, fun fuel hfuel => ?_⟩
      obtain ⟨fuel, rfl⟩ := Nat.exists_eq_succ_of_ne_zero (Nat.ne_zero_of_lt hfuel)
      rw [loop, hstep]
    -- a turn that goes on leaves less to do
    | .ok (.inl next) =>
      rw [hstep] at hturn
      obtain ⟨hnext, hlt⟩ := hturn
      obtain ⟨result, hpost, hloop⟩ := ih (left next) hlt hnext rfl
      refine ⟨result, hpost, fun fuel hfuel => ?_⟩
      obtain ⟨fuel, rfl⟩ := Nat.exists_eq_succ_of_ne_zero (Nat.ne_zero_of_lt hfuel)
      rw [loop, hstep]
      exact hloop fuel (by omega)

end AgentHub
