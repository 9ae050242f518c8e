import Mathlib.Algebra.GroupWithZero.Nat
import Mathlib.Algebra.Order.BigOperators.Group.List
import Mathlib.Data.List.Infix

/-!
# Spending a budget from the front

`takeAffordable` takes items from the front of a list as long as the next one can be paid for.  No
longer front part of the list is within the budget.
-/

namespace AgentHub.Budget

variable {α : Type*} (cost : α → Nat)

/-- What a list costs. -/
def total (l : List α) : Nat := (l.map cost).sum

/-- The items that are paid for one after the other, up to the first that is too dear. -/
def takeAffordable : Nat → List α → List α
  | _, [] => []
  | budget, a :: l => if cost a ≤ budget then a :: takeAffordable (budget - cost a) l else []

variable {cost} {budget : Nat} {l : List α}

@[simp] theorem total_nil : total cost [] = 0 := rfl

@[simp] theorem total_cons (a : α) (l : List α) : total cost (a :: l) = cost a + total cost l := by
  simp [total]

theorem total_reverse (l : List α) : total cost l.reverse = total cost l := by
  rw [total, List.map_reverse, List.sum_reverse, total]

theorem takeAffordable_front : takeAffordable cost budget l <+: l := by
  induction l generalizing budget with
  | nil => exact List.prefix_rfl
  | cons a l ih =>
    rw [takeAffordable]
    split
    · exact List.cons_prefix_cons.2 ⟨rfl, ih⟩
    · exact List.nil_prefix

theorem total_takeAffordable_le : total cost (takeAffordable cost budget l) ≤ budget := by
  induction l generalizing budget with
  | nil => exact Nat.zero_le _
  | cons a l ih =>
    rw [takeAffordable]
    split
    · rename_i hcost
      have hrest := @ih (budget - cost a)
      rw [total_cons]
      omega
    · exact Nat.zero_le _

/-- **No longer front part is affordable.** -/
theorem length_le_takeAffordable {front : List α} (hfront : front <+: l)
    (haffordable : total cost front ≤ budget) :
    front.length ≤ (takeAffordable cost budget l).length := by
  induction l generalizing budget front with
  | nil => exact hfront.length_le
  | cons a l ih =>
    cases front with
    | nil => exact Nat.zero_le _
    | cons b front =>
      obtain ⟨rfl, hrest⟩ := List.cons_prefix_cons.1 hfront
      rw [total_cons] at haffordable
      have hcost : cost b ≤ budget := by omega
      have hshorter := @ih (budget - cost b) front hrest (by omega)
      rw [takeAffordable, if_pos hcost, List.length_cons, List.length_cons]
      omega

end AgentHub.Budget
