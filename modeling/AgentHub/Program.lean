import AgentHub.Machine

/-!
# Programs over a shared state

A `Program` reaches a state it shares with others only through atomic calls; between two of its
calls anything may happen.  It ends with a value or an error, and a call that fails ends it too.

A `Discipline` says which calls are allowed at a point of a program and what the replies lead to.
`Obeys` is checked on the text of a program, once; `run_of_obeys` draws the consequence for a
program that runs alone, and `pool_of_obeys` for any interleaving of many.  `wp` is the weakest
precondition of a program that runs alone, for results that speak of the states its calls come in.
-/

namespace AgentHub

/-- A program with calls `κ`, a reply of type `ρ c` to the call `c`, errors `ε` and value `α`. -/
inductive Program (κ : Type) (ρ : κ → Type) (ε α : Type) where
  | done (a : α)
  | fail (e : ε)
  | call (c : κ) (next : ρ c → Program κ ρ ε α)

namespace Program

variable {κ : Type} {ρ : κ → Type} {ε α β : Type}

def bind : Program κ ρ ε α → (α → Program κ ρ ε β) → Program κ ρ ε β
  | done a, f => f a
  | fail e, _ => fail e
  | call c next, f => call c fun r => (next r).bind f

instance : Monad (Program κ ρ ε) where
  pure := done
  bind := bind

/-- Make a call and return its reply. -/
def perform (c : κ) : Program κ ρ ε (ρ c) := call c done

def check : Except ε α → Program κ ρ ε α
  | .ok a => done a
  | .error e => fail e

instance : MonadLift (Except ε) (Program κ ρ ε) := ⟨check⟩

@[simp] theorem pure_eq (a : α) : (pure a : Program κ ρ ε α) = done a := rfl

@[simp] theorem done_bind (a : α) (f : α → Program κ ρ ε β) : done a >>= f = f a := rfl

@[simp] theorem fail_bind (e : ε) (f : α → Program κ ρ ε β) : fail e >>= f = fail e := rfl

@[simp] theorem call_bind (c : κ) (next : ρ c → Program κ ρ ε α) (f : α → Program κ ρ ε β) :
    call c next >>= f = call c fun r => next r >>= f := rfl

@[simp] theorem perform_bind (c : κ) (f : ρ c → Program κ ρ ε β) :
    perform c >>= f = call c f := rfl

@[simp] theorem check_ok (a : α) : (check (.ok a) : Program κ ρ ε α) = done a := rfl

@[simp] theorem check_error (e : ε) : (check (.error e) : Program κ ρ ε α) = fail e := rfl

theorem bind_assoc {δ : Type} {f : α → Program κ ρ ε β} {g : β → Program κ ρ ε δ} :
    ∀ p : Program κ ρ ε α, p >>= f >>= g = p >>= fun a => f a >>= g
  | done _ => rfl
  | fail _ => rfl
  | call c next => congrArg (call c) (funext fun r => bind_assoc (next r))

/-- Some replies lead to the call. -/
inductive Makes (c : κ) : Program κ ρ ε α → Prop where
  | here (next : ρ c → Program κ ρ ε α) : Makes c (call c next)
  | later {d : κ} {next : ρ d → Program κ ρ ε α} (r : ρ d) (h : Makes c (next r)) :
      Makes c (call d next)

/-! ### Running -/

section Run

variable {σ ι : Type} (serve : (c : κ) → ι → σ → σ × Option (ρ c)) (lost : ε)

/-- What is left of a program after a reply to its call; `none` is a failure. -/
def resume {c : κ} (next : ρ c → Program κ ρ ε α) : Option (ρ c) → Program κ ρ ε α
  | some r => next r
  | none => fail lost

/-- The whole of a program with nothing between its calls. -/
def run : Program κ ρ ε α → (Nat → ι) → σ → σ × Except ε α
  | done a, _, s => (s, .ok a)
  | fail e, _, s => (s, .error e)
  | call c next, env, s =>
    match serve c (env 0) s with
    | (s', some r) => (next r).run (fun n => env (n + 1)) s'
    | (s', none) => (s', .error lost)

/-- A program of one call, alone. -/
theorem run_call_done (c : κ) (f : ρ c → α) (env : Nat → ι) (s : σ) :
    (call c fun r => done (f r) : Program κ ρ ε α).run serve lost env s =
      ((serve c (env 0) s).1, (serve c (env 0) s).2.elim (.error lost) fun r => .ok (f r)) := by
  rw [run.eq_def]
  dsimp only
  generalize serve c (env 0) s = result
  obtain ⟨s', r | r⟩ := result
  · rfl
  · rfl

/-- A program whose value is only wrapped at its end. -/
theorem run_bind_done (f : α → β) :
    ∀ (p : Program κ ρ ε α) (env : Nat → ι) (s : σ),
      (p >>= fun a => done (f a)).run serve lost env s =
        ((p.run serve lost env s).1, (p.run serve lost env s).2.map f)
  | done _, _, _ => rfl
  | fail _, _, _ => rfl
  | call c next, env, s => by
    rw [call_bind, run, run]
    generalize serve c (env 0) s = result
    obtain ⟨s', r | r⟩ := result
    · rfl
    · exact run_bind_done f (next r) _ s'

end Run

/-! ### Errors -/

/-- The program raises no error of its own. -/
def Unfailing : Program κ ρ ε α → Prop
  | done _ => True
  | fail _ => False
  | call _ next => ∀ r, Unfailing (next r)

theorem Unfailing.bind {f : α → Program κ ρ ε β} (hf : ∀ a, (f a).Unfailing) :
    ∀ {p : Program κ ρ ε α}, p.Unfailing → (p >>= f).Unfailing
  | done a, _ => hf a
  | call _ _, h => fun r => (h r).bind hf

/-! ### Disciplines -/

/-- Which calls are allowed in a mode `γ`, and the mode after a reply. -/
structure Discipline (κ : Type) (ρ : κ → Type) (γ : Type) where
  allows : γ → κ → Prop
  after : γ → (c : κ) → ρ c → γ

variable {γ : Type} {D : Discipline κ ρ γ}

/-- In the given mode the program makes only calls that are allowed, and ends as `post` says. -/
def Obeys (D : Discipline κ ρ γ) (post : γ → α → Prop) : γ → Program κ ρ ε α → Prop
  | g, done a => post g a
  | _, fail _ => True
  | g, call c next => D.allows g c ∧ ∀ r, Obeys D post (D.after g c r) (next r)

theorem Obeys.mono {post post' : γ → α → Prop} (hpost : ∀ g a, post g a → post' g a) :
    ∀ {p : Program κ ρ ε α} {g : γ}, p.Obeys D post g → p.Obeys D post' g
  | done a, g, h => hpost g a h
  | fail _, _, _ => trivial
  | call _ _, _, h => ⟨h.1, fun r => (h.2 r).mono hpost⟩

theorem Obeys.bind {post : γ → α → Prop} {post' : γ → β → Prop} {f : α → Program κ ρ ε β}
    (hf : ∀ g a, post g a → (f a).Obeys D post' g) :
    ∀ {p : Program κ ρ ε α} {g : γ}, p.Obeys D post g → (p >>= f).Obeys D post' g
  | done a, g, h => hf g a h
  | fail _, _, _ => trivial
  | call _ _, _, h => ⟨h.1, fun r => (h.2 r).bind hf⟩

theorem obeys_check {post : γ → α → Prop} {g : γ} {e : Except ε α}
    (h : ∀ a, e = .ok a → post g a) : (check e : Program κ ρ ε α).Obeys D post g := by
  cases e with
  | ok a => exact h a rfl
  | error e => trivial

/-- A check that makes no call: what follows it may use what it has found. -/
theorem obeys_check_bind {post : γ → β → Prop} {g : γ} {e : Except ε α}
    {f : α → Program κ ρ ε β} (h : ∀ a, e = .ok a → (f a).Obeys D post g) :
    (check e >>= f).Obeys D post g := by
  cases e with
  | ok a => exact h a rfl
  | error e => trivial

theorem obeys_perform_bind {post : γ → β → Prop} {g : γ} {c : κ} {f : ρ c → Program κ ρ ε β}
    (hc : D.allows g c) (hf : ∀ r, (f r).Obeys D post (D.after g c r)) :
    (perform c >>= f).Obeys D post g :=
  ⟨hc, hf⟩

/-- An invariant of the modes and the state that the allowed calls keep holds when a program that
runs alone ends. -/
theorem run_of_obeys {σ ι : Type} (serve : (c : κ) → ι → σ → σ × Option (ρ c)) (lost : ε)
    {I : γ → σ → Prop}
    (hserve : ∀ g c env s, I g s → D.allows g c →
      I ((serve c env s).2.elim g (D.after g c)) (serve c env s).1)
    {post : γ → α → Prop} :
    ∀ {p : Program κ ρ ε α} {g : γ}, p.Obeys D post g → ∀ (env : Nat → ι) {s : σ}, I g s →
      ∃ g', I g' (p.run serve lost env s).1 ∧
        ∀ a, (p.run serve lost env s).2 = .ok a → post g' a
  | done a, g, h, env, s, hI => ⟨g, hI, by rintro b ⟨⟩; exact h⟩
  | fail e, g, _, env, s, hI => ⟨g, hI, by rintro b ⟨⟩⟩
  | call c next, g, h, env, s, hI => by
    have hkept := hserve g c (env 0) s hI h.1
    rw [run]
    generalize serve c (env 0) s = result at hkept
    obtain ⟨s', r | r⟩ := result
    · exact ⟨g, hkept, by rintro b ⟨⟩⟩
    · exact run_of_obeys serve lost hserve (h.2 r) _ hkept

/-! ### Weakest preconditions -/

section Alone

variable {σ ι : Type} (serve : (c : κ) → ι → σ → σ × Option (ρ c)) (lost : ε)
  (C : κ → ι → σ → Prop)

/-- A program that runs alone makes its calls where `C` holds. -/
def Along : Program κ ρ ε α → (Nat → ι) → σ → Prop
  | done _, _, _ => True
  | fail _, _, _ => True
  | call c next, env, s =>
    C c (env 0) s ∧ ∀ r, (serve c (env 0) s).2 = some r →
      (next r).Along (fun n => env (n + 1)) (serve c (env 0) s).1

/-- What holds of the state where a program that runs alone, with its calls made where `C` holds,
ends as `post` says. -/
def wp : Program κ ρ ε α → (Except ε α → σ → Prop) → σ → Prop
  | done a, post, s => post (.ok a) s
  | fail e, post, s => post (.error e) s
  | call c next, post, s => ∀ i, C c i s →
    (∀ r, (serve c i s).2 = some r → (next r).wp post (serve c i s).1) ∧
      ((serve c i s).2 = none → post (.error lost) (serve c i s).1)

/-- What must hold after the first part of a program. -/
def continues (f : α → Program κ ρ ε β) (post : Except ε β → σ → Prop) : Except ε α → σ → Prop
  | .ok a, s => (f a).wp serve lost C post s
  | .error e, s => post (.error e) s

theorem wp_bind {f : α → Program κ ρ ε β} {post : Except ε β → σ → Prop} :
    ∀ {p : Program κ ρ ε α} {s : σ}, p.wp serve lost C (continues serve lost C f post) s →
      (p >>= f).wp serve lost C post s
  | done _, _, h => h
  | fail _, _, h => h
  | call _ _, _, h => fun i hi => ⟨fun r hr => wp_bind ((h i hi).1 r hr), (h i hi).2⟩

theorem wp_mono {post post' : Except ε α → σ → Prop} (hpost : ∀ r s, post r s → post' r s) :
    ∀ {p : Program κ ρ ε α} {s : σ}, p.wp serve lost C post s → p.wp serve lost C post' s
  | done _, _, h => hpost _ _ h
  | fail _, _, h => hpost _ _ h
  | call _ _, _, h => fun i hi =>
    ⟨fun r hr => wp_mono hpost ((h i hi).1 r hr), fun hr => hpost _ _ ((h i hi).2 hr)⟩

/-- A program ends in one way: what two conditions say of its end they say together. -/
theorem wp_and {post post' : Except ε α → σ → Prop} :
    ∀ {p : Program κ ρ ε α} {s : σ}, p.wp serve lost C post s → p.wp serve lost C post' s →
      p.wp serve lost C (fun r t => post r t ∧ post' r t) s
  | done _, _, h, h' => ⟨h, h'⟩
  | fail _, _, h, h' => ⟨h, h'⟩
  | call _ _, _, h, h' => fun i hi =>
    ⟨fun r hr => wp_and ((h i hi).1 r hr) ((h' i hi).1 r hr),
      fun hr => ⟨(h i hi).2 hr, (h' i hi).2 hr⟩⟩

/-- **The rule of the weakest precondition.** -/
theorem run_of_wp {post : Except ε α → σ → Prop} :
    ∀ {p : Program κ ρ ε α} {s : σ} (env : Nat → ι), p.wp serve lost C post s →
      p.Along serve C env s → post (p.run serve lost env s).2 (p.run serve lost env s).1
  | done _, _, _, h, _ => h
  | fail _, _, _, h, _ => h
  | call c next, s, env, h, halong => by
    obtain ⟨hnext, hlost⟩ := h (env 0) halong.1
    have hrest := halong.2
    rw [run]
    generalize serve c (env 0) s = result at hnext hlost hrest
    obtain ⟨s', r | r⟩ := result
    · exact hlost rfl
    · exact run_of_wp _ (hnext r rfl) (hrest r rfl)

/-- A program without an error of its own ends well where no call fails. -/
theorem wp_of_unfailing (hserve : ∀ c i s, (serve c i s).2 ≠ none) :
    ∀ {p : Program κ ρ ε α} {s : σ}, p.Unfailing →
      p.wp serve lost C (fun r _ => ∃ a, r = .ok a) s
  | done a, _, _ => ⟨a, rfl⟩
  | call c _, s, h => fun i _ =>
    ⟨fun r _ => wp_of_unfailing hserve (h r), fun hnone => absurd hnone (hserve c i s)⟩

/-- The rule of disciplines as a weakest precondition. -/
theorem wp_of_obeys {D : Discipline κ ρ γ} {I : γ → σ → Prop} {post : γ → α → Prop}
    (hserve : ∀ g c env s, I g s → D.allows g c →
      I ((serve c env s).2.elim g (D.after g c)) (serve c env s).1) :
    ∀ {p : Program κ ρ ε α} {g : γ} {s : σ}, p.Obeys D post g → I g s →
      p.wp serve lost C (fun _ t => ∃ g', I g' t) s
  | done _, g, _, _, hI => ⟨g, hI⟩
  | fail _, g, _, _, hI => ⟨g, hI⟩
  | call c _, g, s, h, hI => by
    intro env _
    have hkept := hserve g c env s hI h.1
    constructor
    · intro r hr
      rw [hr] at hkept
      exact wp_of_obeys hserve (h.2 r) hkept
    · intro hr
      rw [hr] at hkept
      exact ⟨g, hkept⟩

/-- A program that obeys a discipline makes its calls where the invariant holds. -/
theorem along_of_obeys {D : Discipline κ ρ γ} {I : γ → σ → Prop} {post : γ → α → Prop}
    (hserve : ∀ g c env s, I g s → D.allows g c →
      I ((serve c env s).2.elim g (D.after g c)) (serve c env s).1) :
    ∀ {p : Program κ ρ ε α} {g : γ} {env : Nat → ι} {s : σ}, p.Obeys D post g → I g s →
      p.Along serve (fun _ _ t => ∃ g', I g' t) env s
  | done _, _, _, _, _, _ => trivial
  | fail _, _, _, _, _, _ => trivial
  | call c _, g, env, s, h, hI => by
    have hkept := hserve g c (env 0) s hI h.1
    refine ⟨⟨g, hI⟩, fun r hr => ?_⟩
    rw [hr] at hkept
    exact along_of_obeys hserve (h.2 r) hkept

/-- Whether a program that runs alone makes its calls where a test succeeds. -/
def testsAlong (test : κ → ι → σ → Bool) : Program κ ρ ε α → (Nat → ι) → σ → Bool
  | done _, _, _ => true
  | fail _, _, _ => true
  | call c next, env, s =>
    test c (env 0) s &&
      match serve c (env 0) s with
      | (s', some r) => (next r).testsAlong test (fun n => env (n + 1)) s'
      | (_, none) => true

theorem along_of_testsAlong {test : κ → ι → σ → Bool} :
    ∀ {p : Program κ ρ ε α} {env : Nat → ι} {s : σ}, p.testsAlong serve test env s = true →
      p.Along serve (fun c i t => test c i t = true) env s
  | done _, _, _, _ => trivial
  | fail _, _, _, _ => trivial
  | call c next, env, s, h => by
    simp only [testsAlong, Bool.and_eq_true] at h
    refine ⟨h.1, fun r hr => ?_⟩
    have hrest := h.2
    generalize serve c (env 0) s = result at hr hrest ⊢
    obtain ⟨s', reply⟩ := result
    obtain rfl : reply = some r := hr
    exact along_of_testsAlong hrest

theorem Along.mono {C C' : κ → ι → σ → Prop} (hC : ∀ c i s, C c i s → C' c i s) :
    ∀ {p : Program κ ρ ε α} {env : Nat → ι} {s : σ}, p.Along serve C env s →
      p.Along serve C' env s
  | done _, _, _, _ => trivial
  | fail _, _, _, _ => trivial
  | call _ _, _, _, h => ⟨hC _ _ _ h.1, fun r hr => Along.mono hC (h.2 r hr)⟩

/-- Two conditions on the calls of one run. -/
theorem Along.and {C C' : κ → ι → σ → Prop} :
    ∀ {p : Program κ ρ ε α} {env : Nat → ι} {s : σ}, p.Along serve C env s →
      p.Along serve C' env s → p.Along serve (fun c i s => C c i s ∧ C' c i s) env s
  | done _, _, _, _, _ => trivial
  | fail _, _, _, _, _ => trivial
  | call _ _, _, _, h, h' => ⟨⟨h.1, h'.1⟩, fun r hr => Along.and (h.2 r hr) (h'.2 r hr)⟩

theorem Along.left {f : α → Program κ ρ ε β} {C : κ → ι → σ → Prop} :
    ∀ {p : Program κ ρ ε α} {env : Nat → ι} {s : σ}, (p >>= f).Along serve C env s →
      p.Along serve C env s
  | done _, _, _, _ => trivial
  | fail _, _, _, _ => trivial
  | call _ _, _, _, h => ⟨h.1, fun r hr => Along.left (h.2 r hr)⟩

/-- The second part of a program runs where its first part ends, in the surroundings that are
left. -/
theorem run_bind_ok {f : α → Program κ ρ ε β} {a : α} :
    ∀ {p : Program κ ρ ε α} {env : Nat → ι} {s : σ}, (p.run serve lost env s).2 = .ok a →
      ∃ rest : Nat → ι,
        (p >>= f).run serve lost env s = (f a).run serve lost rest (p.run serve lost env s).1 ∧
        ∀ C : κ → ι → σ → Prop, (p >>= f).Along serve C env s →
          (f a).Along serve C rest (p.run serve lost env s).1
  | done _, env, _, h => by
    obtain rfl := Except.ok.inj h
    exact ⟨env, rfl, fun _ halong => halong⟩
  | fail _, _, _, h => by cases h
  | call c next, env, s, h => by
    simp only [call_bind, run, Along] at h ⊢
    generalize serve c (env 0) s = result at h ⊢
    obtain ⟨s', r | r⟩ := result
    · cases h
    · obtain ⟨rest, hrun, halong⟩ := run_bind_ok (p := next r) h
      exact ⟨rest, hrun, fun C hC => halong C (hC.2 r rfl)⟩

/-- An error of the first part is one of the whole. -/
theorem run_bind_error {f : α → Program κ ρ ε β} {e : ε} :
    ∀ {p : Program κ ρ ε α} {env : Nat → ι} {s : σ}, (p.run serve lost env s).2 = .error e →
      (p >>= f).run serve lost env s = ((p.run serve lost env s).1, .error e)
  | done _, _, _, h => by cases h
  | fail _, _, _, h => by
    obtain rfl := Except.error.inj h
    rfl
  | call c next, env, s, h => by
    simp only [call_bind, run] at h ⊢
    generalize serve c (env 0) s = result at h ⊢
    obtain ⟨s', r | r⟩ := result
    · obtain rfl := Except.error.inj h
      rfl
    · exact run_bind_error (p := next r) h

end Alone

end Program

/-! ### Many programs -/

/-- A program under way, with what it was started for and the calls it has made. -/
structure Process (κ : Type) (ρ : κ → Type) (ε α τ : Type) where
  tag : τ
  made : List κ
  rest : Program κ ρ ε α

/-- A shared state and the programs on it. -/
structure Pool (κ : Type) (ρ : κ → Type) (ε α τ σ : Type) where
  shared : σ
  processes : List (Process κ ρ ε α τ)

inductive PoolInput (τ ι ξ : Type) where
  | begin (tag : τ)
  /-- The next call of a process. -/
  | advance (process : Nat) (env : ι)
  /-- A change of the state that no process makes. -/
  | outside (x : ξ)

/-- A call that was made, with the state before and after it. -/
structure Made (κ τ σ : Type) where
  tag : τ
  call : κ
  before : σ
  after : σ

namespace Pool

open Program

variable {κ : Type} {ρ : κ → Type} {ε α τ σ ι ξ : Type}

/-- What the programs run on. -/
structure Runtime (κ : Type) (ρ : κ → Type) (ε α τ σ ι ξ : Type) where
  route : τ → Program κ ρ ε α
  serve : (c : κ) → ι → σ → σ × Option (ρ c)
  lost : ε
  outside : ξ → σ → σ

namespace Runtime

variable (S : Runtime κ ρ ε α τ σ ι ξ)

/-- The process after its call. -/
def moved (p : Process κ ρ ε α τ) (c : κ) (next : ρ c → Program κ ρ ε α)
    (reply : Option (ρ c)) : Process κ ρ ε α τ where
  tag := p.tag
  made := p.made ++ [c]
  rest := resume S.lost next reply

def step (pool : Pool κ ρ ε α τ σ) :
    PoolInput τ ι ξ → Pool κ ρ ε α τ σ × List (Made κ τ σ)
  | .begin tag => ({ pool with processes := pool.processes ++ [⟨tag, [], S.route tag⟩] }, [])
  | .advance i env =>
    match pool.processes[i]? with
    | none => (pool, [])
    | some p =>
      match p.rest with
      | .call c next =>
        let served := S.serve c env pool.shared
        ({ shared := served.1
           processes := pool.processes.set i (S.moved p c next served.2) },
          [⟨p.tag, c, pool.shared, served.1⟩])
      | _ => (pool, [])
  | .outside x => ({ pool with shared := S.outside x pool.shared }, [])

def machine : Machine (Pool κ ρ ε α τ σ) (PoolInput τ ι ξ) (Made κ τ σ) := ⟨S.step⟩

/-- An input of one of its three kinds that changes the shared state from what it is. -/
inductive Changes (S : Runtime κ ρ ε α τ σ ι ξ) (pool : Pool κ ρ ε α τ σ) :
    PoolInput τ ι ξ → σ → Prop where
  | advance {i : Nat} {p : Process κ ρ ε α τ} {c : κ} {next : ρ c → Program κ ρ ε α} (env : ι)
      (hp : pool.processes[i]? = some p) (hrest : p.rest = .call c next) :
      Changes S pool (.advance i env) (S.serve c env pool.shared).1
  | outside (x : ξ) : Changes S pool (.outside x) (S.outside x pool.shared)

variable {S}

/-- **The rule for interleavings.**  `P` is what a process relies on of the shared state.  It holds
when a process begins; where a call meets the condition the process that makes it keeps it for
itself, and the changes that meet the condition keep it for the others.  Then it holds throughout,
and every call is made under it. -/
theorem machine_of_relies {P : σ → Process κ ρ ε α τ → Prop} {Q : Made κ τ σ → Prop}
    {C : Pool κ ρ ε α τ σ → PoolInput τ ι ξ → Prop}
    (hbegin : ∀ s tag, P s ⟨tag, [], S.route tag⟩)
    (hself : ∀ (pool : Pool κ ρ ε α τ σ) i p c next env, C pool (.advance i env) →
      pool.processes[i]? = some p → p.rest = .call c next → P pool.shared p →
      P (S.serve c env pool.shared).1 (S.moved p c next (S.serve c env pool.shared).2) ∧
        Q ⟨p.tag, c, pool.shared, (S.serve c env pool.shared).1⟩)
    (hothers : ∀ pool input s', C pool input → S.Changes pool input s' →
      ∀ p ∈ pool.processes, P pool.shared p → P s' p)
    {inputs : List (PoolInput τ ι ξ)} {s : σ}
    (hmeets : S.machine.Meets C ⟨s, []⟩ inputs) :
    (∀ p ∈ (S.machine.exec ⟨s, []⟩ inputs).1.processes,
        P (S.machine.exec ⟨s, []⟩ inputs).1.shared p) ∧
      ∀ made ∈ (S.machine.exec ⟨s, []⟩ inputs).2, Q made := by
  refine S.machine.exec_of_meets
    (I := fun pool tr => (∀ p ∈ pool.processes, P pool.shared p) ∧ ∀ made ∈ tr, Q made)
    ?_ (by simp) hmeets
  intro pool tr input hI hC
  obtain ⟨hP, hQ⟩ := hI
  -- a new process has made no call yet
  cases input with
  | begin tag =>
    refine ⟨?_, by simpa [machine, step] using hQ⟩
    intro p hp
    rcases List.mem_append.1 hp with hp | hp
    · exact hP p hp
    · rw [List.mem_singleton.1 hp]
      exact hbegin _ tag
  | outside x =>
    refine ⟨?_, by simpa [machine, step] using hQ⟩
    intro p hp
    exact hothers pool _ _ hC (.outside x) p hp (hP p hp)
  | advance i env =>
    simp only [machine, step]
    cases hp : pool.processes[i]? with
    | none => exact ⟨hP, by simpa using hQ⟩
    | some p =>
      have hmem : p ∈ pool.processes := List.mem_of_getElem? hp
      dsimp only
      split
      case h_1 c next hrest =>
        -- the process that moves keeps its own, the others bear the change
        obtain ⟨hmoved, hmade⟩ := hself pool i p c next env hC hp hrest (hP p hmem)
        constructor
        · intro q hq
          rcases List.mem_or_eq_of_mem_set hq with hq | rfl
          · exact hothers pool _ _ hC (.advance env hp hrest) q hq (hP q hq)
          · exact hmoved
        · intro made hin
          rcases List.mem_append.1 hin with hin | hin
          · exact hQ made hin
          · rw [List.mem_singleton.1 hin]
            exact hmade
      case h_2 => exact ⟨hP, by simpa using hQ⟩

/-- **Disciplines in interleavings.**  Where every program obeys a discipline of its own, each call
that is made is one its discipline allows. -/
theorem machine_of_obeys {γ : Type} {D : τ → Discipline κ ρ γ} {start : γ}
    (hroute : ∀ tag, (S.route tag).Obeys (D tag) (fun _ _ => True) start) {Q : Made κ τ σ → Prop}
    (hserve : ∀ tag g c env s, (D tag).allows g c → Q ⟨tag, c, s, (S.serve c env s).1⟩)
    (inputs : List (PoolInput τ ι ξ)) (s : σ) :
    ∀ made ∈ (S.machine.exec ⟨s, []⟩ inputs).2, Q made := by
  have hmeets := S.machine.meets_of_forall (C := fun _ _ => True) (fun _ _ => trivial) ⟨s, []⟩ inputs
  refine (machine_of_relies (P := fun _ p => ∃ g, p.rest.Obeys (D p.tag) (fun _ _ => True) g)
    (fun _ tag => ⟨start, hroute tag⟩) ?_ (fun _ _ _ _ _ _ _ h => h) hmeets).2
  rintro pool i p c next env - hp hrest ⟨g, hobeys⟩
  rw [hrest] at hobeys
  refine ⟨?_, hserve p.tag g c env pool.shared hobeys.1⟩
  unfold moved
  cases (S.serve c env pool.shared).2 with
  | none => exact ⟨g, trivial⟩
  | some r => exact ⟨(D p.tag).after g c r, hobeys.2 r⟩

end Runtime

end Pool

end AgentHub
