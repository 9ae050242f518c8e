import Mathlib.Data.List.Induction
import Mathlib.Order.Lattice

/-!
# Registers that keep the latest

Elements come in any order and any number of times.  One whose id was seen before is left out; any
other is offered to the register of its key, which takes it unless it is below what it holds.
However they come, a register then holds a greatest of its elements (`holds_foldl_receive`), and
which one depends on the elements alone when no two of a key have one rank (`Holds.held_eq`).
-/

namespace AgentHub

/-- How elements are told apart, where they are kept and how they are ordered. -/
structure Filing (α ι κ β : Type*) where
  id : α → ι
  key : α → κ
  rank : α → β

structure Registers (α κ : Type*) where
  /-- The elements in the order they were taken. -/
  taken : List α
  held : κ → Option α

namespace Registers

variable {α ι κ β : Type*}

def empty : Registers α κ := ⟨[], fun _ => none⟩

/-- What the registers say once some elements have come. -/
structure Holds (filing : Filing α ι κ β) [LE β] (came : List α) (r : Registers α κ) : Prop where
  nodup : (r.taken.map filing.id).Nodup
  mem_taken : ∀ a, a ∈ r.taken ↔ a ∈ came
  mem_of_held : ∀ {k b}, r.held k = some b → b ∈ came ∧ filing.key b = k
  greatest : ∀ a ∈ came, ∃ b, r.held (filing.key a) = some b ∧ filing.rank a ≤ filing.rank b

variable {filing : Filing α ι κ β}

/-- An id leads to one element. -/
theorem filter_id_eq [DecidableEq ι] {taken : List α} (h : (taken.map filing.id).Nodup) {a : α}
    (hmem : a ∈ taken) : (taken.filter fun b => filing.id b = filing.id a) = [a] := by
  induction taken with
  | nil => cases hmem
  | cons b bs ih =>
    rw [List.map_cons, List.nodup_cons] at h
    rcases List.mem_cons.1 hmem with rfl | hrest
    · have hnone : (bs.filter fun c => filing.id c = filing.id a) = [] := by
        refine List.filter_eq_nil_iff.2 fun c hc hid => h.1 ?_
        exact List.mem_map.2 ⟨c, hc, of_decide_eq_true hid⟩
      rw [List.filter_cons_of_pos (by simp), hnone]
    · have hne : filing.id b ≠ filing.id a := fun hid =>
        h.1 (List.mem_map.2 ⟨a, hrest, hid.symm⟩)
      rw [List.filter_cons_of_neg (by simpa using hne), ih h.2 hrest]

variable [LinearOrder β]

theorem Holds.empty : Holds filing [] (Registers.empty : Registers α κ) where
  nodup := List.nodup_nil
  mem_taken _ := Iff.rfl
  mem_of_held h := by cases h
  greatest _ h := by cases h

/-- Two sequences of the same elements leave the same. -/
theorem Holds.held_eq {came came' : List α} {r r' : Registers α κ} (h : Holds filing came r)
    (h' : Holds filing came' r') (hsame : ∀ a, a ∈ came ↔ a ∈ came')
    (hranks : ∀ a ∈ came, ∀ b ∈ came, filing.key a = filing.key b →
      filing.rank a = filing.rank b → a = b) : r.held = r'.held := by
  funext k
  rcases Option.eq_none_or_eq_some (r.held k) with hnone | ⟨a, ha⟩
  · rcases Option.eq_none_or_eq_some (r'.held k) with hnone' | ⟨b, hb⟩
    · rw [hnone, hnone']
    · obtain ⟨hmem, rfl⟩ := h'.mem_of_held hb
      obtain ⟨c, hc, -⟩ := h.greatest b ((hsame b).2 hmem)
      rw [hnone] at hc
      cases hc
  · obtain ⟨hmem, rfl⟩ := h.mem_of_held ha
    obtain ⟨b, hb, hle⟩ := h'.greatest a ((hsame a).1 hmem)
    obtain ⟨hmem', hkey⟩ := h'.mem_of_held hb
    obtain ⟨c, hc, hle'⟩ := h.greatest b ((hsame b).2 hmem')
    obtain rfl : a = c := Option.some.inj (ha.symm.trans (hkey ▸ hc))
    have heq : a = b := hranks a hmem b ((hsame b).2 hmem') hkey.symm (le_antisymm hle hle')
    rw [ha, hb, heq]

variable (filing) [DecidableEq ι] [DecidableEq κ]

/-- An element comes. -/
def receive (r : Registers α κ) (a : α) : Registers α κ :=
  if filing.id a ∈ r.taken.map filing.id then r
  else
    { taken := r.taken ++ [a]
      held :=
        if (r.held (filing.key a)).any fun b => filing.rank a < filing.rank b then r.held
        else Function.update r.held (filing.key a) (some a) }

variable {filing}

/-- An element with a new id is counted, and its register holds no less than before. -/
theorem Holds.receive_new {came : List α} {r : Registers α κ} (h : Holds filing came r) {a : α}
    (hnew : filing.id a ∉ r.taken.map filing.id) :
    Holds filing (came ++ [a]) (r.receive filing a) := by
  rw [receive, if_neg hnew]
  have htaken : ∀ b, b ∈ r.taken ++ [a] ↔ b ∈ came ++ [a] := by
    intro b
    rw [List.mem_append, List.mem_append, h.mem_taken]
  have hnodup : ((r.taken ++ [a]).map filing.id).Nodup := by
    rw [List.map_append]
    refine List.nodup_append.2 ⟨h.nodup, List.pairwise_singleton _ _, ?_⟩
    rintro i hi _ hj rfl
    exact hnew (List.mem_singleton.1 hj ▸ hi)
  split_ifs with hbelow
  · -- the register holds one that is above
    obtain ⟨b, hb, hlt⟩ := (Option.any_eq_true _ _).1 hbelow
    refine ⟨hnodup, htaken, fun hk => ?_, fun c hc => ?_⟩
    · exact ⟨List.mem_append_left _ (h.mem_of_held hk).1, (h.mem_of_held hk).2⟩
    · rcases List.mem_append.1 hc with hc | hc
      · exact h.greatest c hc
      · rw [List.mem_singleton.1 hc]
        exact ⟨b, hb, le_of_lt (of_decide_eq_true hlt)⟩
  · -- the new one takes the register of its key
    refine ⟨hnodup, htaken, fun {k b} hk => ?_, fun c hc => ?_⟩
    · change Function.update r.held (filing.key a) (some a) k = some b at hk
      by_cases hkey : k = filing.key a
      · subst hkey
        rw [Function.update_self] at hk
        obtain rfl := Option.some.inj hk
        exact ⟨List.mem_append_right _ List.mem_cons_self, rfl⟩
      · rw [Function.update_of_ne hkey] at hk
        exact ⟨List.mem_append_left _ (h.mem_of_held hk).1, (h.mem_of_held hk).2⟩
    · show ∃ b, Function.update r.held (filing.key a) (some a) (filing.key c) = some b ∧ _
      rcases List.mem_append.1 hc with hc | hc
      · obtain ⟨b, hb, hle⟩ := h.greatest c hc
        -- what was held there is not above it
        by_cases hkey : filing.key c = filing.key a
        · rw [hkey, Function.update_self]
          refine ⟨a, rfl, le_trans hle (not_lt.1 fun hlt => hbelow ?_)⟩
          exact (Option.any_eq_true _ _).2 ⟨b, hkey ▸ hb, decide_eq_true hlt⟩
        · rw [Function.update_of_ne hkey]
          exact ⟨b, hb, hle⟩
      · rw [List.mem_singleton.1 hc, Function.update_self]
        exact ⟨a, rfl, le_rfl⟩

/-- What comes again changes nothing. -/
theorem Holds.receive_again {came : List α} {r : Registers α κ} (h : Holds filing came r) {a : α}
    (hmem : a ∈ came) : Holds filing (came ++ [a]) (r.receive filing a) := by
  have hsame : ∀ b, b ∈ came ++ [a] ↔ b ∈ came := by
    intro b
    rw [List.mem_append, List.mem_singleton, or_iff_left_iff_imp]
    rintro rfl
    exact hmem
  rw [receive, if_pos (List.mem_map_of_mem ((h.mem_taken a).2 hmem))]
  refine ⟨h.nodup, fun b => ?_, fun hk => ?_, fun b hb => ?_⟩
  · rw [h.mem_taken, hsame]
  · exact ⟨(hsame _).2 (h.mem_of_held hk).1, (h.mem_of_held hk).2⟩
  · exact h.greatest b ((hsame b).1 hb)

/-- The registers after any sequence of elements that are told apart by their ids. -/
theorem holds_foldl_receive {as : List α}
    (hids : ∀ a ∈ as, ∀ b ∈ as, filing.id a = filing.id b → a = b) :
    Holds filing as (as.foldl (receive filing) (Registers.empty : Registers α κ)) := by
  induction as using List.reverseRecOn with
  | nil => exact Holds.empty
  | append_singleton as a ih =>
    have hearlier : ∀ b ∈ as, b ∈ as ++ [a] := fun b hb => List.mem_append_left _ hb
    have hrun := ih fun b hb c hc => hids b (hearlier b hb) c (hearlier c hc)
    rw [List.foldl_append, List.foldl_cons, List.foldl_nil]
    by_cases hnew : filing.id a ∈ (as.foldl (receive filing) Registers.empty).taken.map filing.id
    · obtain ⟨b, htaken, hid⟩ := List.mem_map.1 hnew
      have hb : b ∈ as := (hrun.mem_taken b).1 htaken
      have heq : b = a := hids b (hearlier b hb) a
        (List.mem_append_right _ List.mem_cons_self) hid
      exact hrun.receive_again (heq ▸ hb)
    · exact hrun.receive_new hnew

end Registers

end AgentHub
