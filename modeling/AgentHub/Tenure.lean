import Mathlib.Data.List.Nodup
import Mathlib.Data.List.Pairwise

/-!
# Claims that exclude each other

Claims on one thing: each has a holder and a mode that may conflict with others, and some are granted.
`Excludes` says of a list of them that each holder has one, and that no two that conflict are granted.
It holds of claims whose grants were computed from the conflicts (`excludes_of_computed`) and of claims
of which one holder's alone are granted (`excludes_of_award`), and it stays with what is left of a list
in any order.
-/

namespace AgentHub

/-- What decides whether claims exclude each other. -/
structure Tenure (γ α : Type*) where
  holder : γ → α
  Granted : γ → Prop
  conflicts : γ → γ → Bool
  symm : ∀ a b, conflicts a b = conflicts b a

namespace Tenure

variable {γ α : Type*} (T : Tenure γ α)

/-- Two claims of different holders, at most one of them granted where they conflict. -/
def Apart (a b : γ) : Prop :=
  T.holder a ≠ T.holder b ∧ (T.Granted a → T.Granted b → T.conflicts a b = false)

def Excludes (claims : List γ) : Prop := claims.Pairwise T.Apart

variable {T} {claims others : List γ}

theorem Apart.symm {a b : γ} (h : T.Apart a b) : T.Apart b a :=
  ⟨h.1.symm, fun hb ha => (T.symm b a).trans (h.2 ha hb)⟩

theorem excludes_nil : T.Excludes [] := List.Pairwise.nil

/-- Two of the claims with different holders. -/
theorem Excludes.apart (h : T.Excludes claims) {a b : γ} (ha : a ∈ claims) (hb : b ∈ claims)
    (hne : T.holder a ≠ T.holder b) : T.Apart a b := by
  have hsymm : Std.Symm T.Apart := ⟨fun _ _ hab => hab.symm⟩
  refine List.Pairwise.forall h ha hb ?_
  rintro rfl
  exact hne rfl

/-- Claims of different holders, all of them among claims that exclude each other. -/
theorem Excludes.of_subset (h : T.Excludes claims) (hmem : ∀ a ∈ others, a ∈ claims)
    (hholders : others.Pairwise fun a b => T.holder a ≠ T.holder b) : T.Excludes others :=
  hholders.imp_of_mem fun ha hb hne => h.apart (hmem _ ha) (hmem _ hb) hne

/-- **Computed grants.**  A claim is granted where it conflicts with no other. -/
theorem excludes_of_computed (hholders : claims.Pairwise fun a b => T.holder a ≠ T.holder b)
    (hgranted : ∀ a ∈ claims, ∀ b ∈ claims, T.holder a ≠ T.holder b → T.Granted a →
      T.conflicts a b = false) : T.Excludes claims :=
  hholders.imp_of_mem fun ha hb hne => ⟨hne, fun hgrant _ => hgranted _ ha _ hb hne hgrant⟩

/-- **An award.**  The claims of one holder alone are granted. -/
theorem excludes_of_award (winner : α)
    (hholders : claims.Pairwise fun a b => T.holder a ≠ T.holder b)
    (hgranted : ∀ a ∈ claims, T.Granted a → T.holder a = winner) :
    T.Excludes claims := by
  refine hholders.imp_of_mem fun {a b} ha hb hne => ⟨hne, fun hgrant hgrant' => ?_⟩
  exact absurd ((hgranted a ha hgrant).trans (hgranted b hb hgrant').symm) hne

end Tenure

end AgentHub
