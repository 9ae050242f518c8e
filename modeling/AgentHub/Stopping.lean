import AgentHub.Program

/-!
# Programs that may be stopped

A program that runs alone, over a state that outlives it, may be stopped before each of its calls and
after it.  `Ends` is a triple with two postconditions: one for wherever the program comes to its end,
stopped or not, and one for its value where it returns one.  `run_of_ends` draws the consequence for a
run.
-/

namespace AgentHub.Program

variable {κ : Type} {ρ : κ → Type} {ε α β σ ι : Type}

/-- What the calls do, and what stops a program at one of them. -/
structure Stops (κ : Type) (ρ : κ → Type) (σ ι : Type) where
  effect : (c : κ) → ι → σ → σ × ρ c
  before : ι → Bool
  after : ι → Bool

/-- A call, where nothing stops the program. -/
def Stops.serve (S : Stops κ ρ σ ι) (c : κ) (i : ι) (s : σ) : σ × Option (ρ c) :=
  if S.before i then (s, none)
  else ((S.effect c i s).1, if S.after i then none else some (S.effect c i s).2)

variable (S : Stops κ ρ σ ι) (lost : ε)

/-- From `s` the program ends where `I` holds, however it ends, and where `Q` holds of what it
returns. -/
def Ends (I : σ → Prop) (p : Program κ ρ ε α) (s : σ) (Q : α → σ → Prop) : Prop :=
  p.wp S.serve lost (fun _ _ _ => True) (fun r t => I t ∧ ∀ a, r = .ok a → Q a t) s

variable {S lost} {I : σ → Prop} {s : σ}

theorem ends_done {a : α} {Q : α → σ → Prop} (hI : I s) (hQ : Q a s) :
    Ends S lost I (done a) s Q := by
  refine ⟨hI, ?_⟩
  rintro b ⟨⟩
  exact hQ

theorem ends_fail {e : ε} {Q : α → σ → Prop} (hI : I s) : Ends S lost I (fail e) s Q :=
  ⟨hI, nofun⟩

theorem ends_check {result : Except ε α} {Q : α → σ → Prop} (hI : I s)
    (hQ : ∀ a, result = .ok a → Q a s) : Ends S lost I (check result) s Q := by
  cases result with
  | ok a => exact ends_done hI (hQ a rfl)
  | error e => exact ends_fail hI

theorem ends_mono {p : Program κ ρ ε α} {Q Q' : α → σ → Prop} (h : Ends S lost I p s Q)
    (hQ : ∀ a t, Q a t → Q' a t) : Ends S lost I p s Q' := by
  refine wp_mono _ _ _ ?_ h
  rintro r t ⟨hI, hr⟩
  exact ⟨hI, fun a ha => hQ a t (hr a ha)⟩

theorem ends_bind {p : Program κ ρ ε α} {f : α → Program κ ρ ε β} {Q : α → σ → Prop}
    {R : β → σ → Prop} (hp : Ends S lost I p s Q)
    (hf : ∀ a t, I t → Q a t → Ends S lost I (f a) t R) : Ends S lost I (p >>= f) s R := by
  refine wp_bind _ _ _ (wp_mono _ _ _ ?_ hp)
  rintro (e | a) t ⟨hI, hQ⟩
  · exact ⟨hI, nofun⟩
  · exact hf a t hI (hQ a rfl)

/-- A call: the program may be stopped on either side of it. -/
theorem ends_perform {c : κ} {Q : ρ c → σ → Prop} (hI : I s)
    (hcall : ∀ i, I (S.effect c i s).1 ∧ Q (S.effect c i s).2 (S.effect c i s).1) :
    Ends S lost I (perform c) s Q := by
  intro i _
  obtain ⟨hafter, hQ⟩ := hcall i
  unfold Stops.serve
  split
  · exact ⟨nofun, fun _ => ⟨hI, nofun⟩⟩
  · refine ⟨?_, fun _ => ⟨hafter, nofun⟩⟩
    intro r hr
    dsimp only at hr
    split at hr
    · cases hr
    · obtain rfl := Option.some.inj hr
      exact ends_done hafter hQ

/-- What a run ends with. -/
theorem run_of_ends {p : Program κ ρ ε α} {Q : α → σ → Prop} (h : Ends S lost I p s Q)
    (env : Nat → ι) :
    I (p.run S.serve lost env s).1 ∧
      ∀ a, (p.run S.serve lost env s).2 = .ok a → Q a (p.run S.serve lost env s).1 := by
  have halong : ∀ (p : Program κ ρ ε α) (env : Nat → ι) (s : σ),
      p.Along S.serve (fun _ _ _ => True) env s := by
    intro p
    induction p with
    | done a => exact fun _ _ => trivial
    | fail e => exact fun _ _ => trivial
    | call c next ih => exact fun env s => ⟨trivial, fun r _ => ih r _ _⟩
  exact run_of_wp _ _ _ env h (halong p env s)

end AgentHub.Program
