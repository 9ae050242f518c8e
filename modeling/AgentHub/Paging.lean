import Mathlib.Algebra.Order.Ring.Int
import Mathlib.Data.List.Pairwise
import Mathlib.Order.Basic
import Mathlib.Tactic.Set

/-!
# Reading a log by cursor

A log is a list whose entries carry ascending keys.  A reader holds a cursor, asks for the next
page of entries after it, and moves the cursor to the last entry of the page.  `between` is the
stretch of the log a reader has passed on the way from one cursor to another; the lemmas say that
a page is such a stretch, that stretches join, and that what is appended later is outside of them.
-/

namespace AgentHub.Paging

variable {α κ : Type*} [LinearOrder κ] (key : α → κ)

/-- The keys of a log ascend. -/
def Ascending (log : List α) : Prop := log.Pairwise fun x y => key x < key y

/-- The entries after a cursor. -/
def after (c : κ) (log : List α) : List α := log.filter fun x => c < key x

/-- The first `n` entries after a cursor. -/
def page (c : κ) (n : Nat) (log : List α) : List α := (after key c log).take n

/-- The entries after one cursor up to another. -/
def between (lo hi : κ) (log : List α) : List α :=
  log.filter fun x => lo < key x && key x ≤ hi

variable {key}

theorem mem_after {c : κ} {log : List α} {x : α} :
    x ∈ after key c log ↔ x ∈ log ∧ c < key x := by
  simp [after]

theorem mem_between {lo hi : κ} {log : List α} {x : α} :
    x ∈ between key lo hi log ↔ x ∈ log ∧ lo < key x ∧ key x ≤ hi := by
  simp [between]

theorem between_eq_nil_of_le {lo hi : κ} (h : hi ≤ lo) (log : List α) :
    between key lo hi log = [] := by
  rw [between, List.filter_eq_nil_iff]
  intro x _ hx
  simp only [Bool.and_eq_true, decide_eq_true_eq] at hx
  exact absurd (hx.1.trans_le hx.2) h.not_gt

theorem between_append (lo hi : κ) (log log' : List α) :
    between key lo hi (log ++ log') = between key lo hi log ++ between key lo hi log' := by
  simp [between]

/-- Entries beyond the upper cursor do not show. -/
theorem between_append_of_lt {lo hi : κ} {log log' : List α} (h : ∀ x ∈ log', hi < key x) :
    between key lo hi (log ++ log') = between key lo hi log := by
  have hnil : between key lo hi log' = [] := by
    rw [between, List.filter_eq_nil_iff]
    intro x hx hb
    simp only [Bool.and_eq_true, decide_eq_true_eq] at hb
    exact absurd hb.2 (h x hx).not_ge
  rw [between_append, hnil, List.append_nil]

theorem Ascending.filter {log : List α} (h : Ascending key log) (p : α → Bool) :
    Ascending key (log.filter p) :=
  h.sublist List.filter_sublist

theorem Ascending.rest {log : List α} (h : Ascending key log) (c : κ) :
    Ascending key (after key c log) :=
  h.filter _

/-- Cutting an ascending log after the last entry of a prefix gives the prefix and the rest. -/
theorem Ascending.cut {front back : List α} (h : Ascending key (front ++ back)) {x : α}
    (hx : front.getLast? = some x) :
    (front ++ back).filter (fun y => key y ≤ key x) = front ∧
      after key (key x) (front ++ back) = back := by
  obtain ⟨hfront, -, hcross⟩ := List.pairwise_append.1 h
  have hmem : x ∈ front := List.mem_of_getLast? hx
  -- the last entry of the prefix bounds the others
  have hle : ∀ y ∈ front, key y ≤ key x := by
    obtain ⟨init, rfl⟩ := List.getLast?_eq_some_iff.1 hx
    intro y hy
    rcases List.mem_append.1 hy with hy | hy
    · exact ((List.pairwise_append.1 hfront).2.2 y hy x (by simp)).le
    · rw [List.mem_singleton.1 hy]
  have hlt : ∀ y ∈ back, key x < key y := fun y hy => hcross x hmem y hy
  constructor
  · rw [List.filter_append, List.filter_eq_self.2, List.filter_eq_nil_iff.2, List.append_nil]
    · intro y hy
      simpa using hlt y hy
    · intro y hy
      simpa using hle y hy
  · rw [after, List.filter_append, List.filter_eq_nil_iff.2, List.filter_eq_self.2,
      List.nil_append]
    · intro y hy
      simpa using hlt y hy
    · intro y hy
      simpa using hle y hy

/-- An ascending log split at a key is a prefix followed by the rest. -/
theorem Ascending.split {log : List α} (h : Ascending key log) (c : κ) :
    (log.filter fun x => key x ≤ c) ++ after key c log = log := by
  induction log with
  | nil => rfl
  | cons x log ih =>
    obtain ⟨hx, hlog⟩ := List.pairwise_cons.1 h
    have hrest := ih hlog
    rw [after] at hrest ⊢
    by_cases hc : key x ≤ c
    · rw [List.filter_cons_of_pos (by simpa using hc),
        List.filter_cons_of_neg (by simpa using hc), List.cons_append, hrest]
    · -- every later entry is beyond the key too
      have hlt : ∀ y ∈ x :: log, c < key y := by
        intro y hy
        rcases List.mem_cons.1 hy with rfl | hy
        · exact not_le.1 hc
        · exact (not_le.1 hc).trans (hx y hy)
      rw [List.filter_eq_nil_iff.2, List.filter_eq_self.2, List.nil_append]
      · intro y hy
        simpa using hlt y hy
      · intro y hy
        simpa using hlt y hy

theorem between_eq_filter_after (lo hi : κ) (log : List α) :
    between key lo hi log = (after key lo log).filter fun x => key x ≤ hi := by
  rw [after, List.filter_filter, between]
  congr 1
  funext x
  rw [Bool.and_comm]

theorem filter_le_between {lo mid hi : κ} (h : mid ≤ hi) (log : List α) :
    (between key lo hi log).filter (fun x => key x ≤ mid) = between key lo mid log := by
  rw [between, between, List.filter_filter]
  congr 1
  funext x
  by_cases hm : key x ≤ mid
  · simp [hm, hm.trans h]
  · simp [hm]

theorem after_between {lo mid : κ} (h : lo ≤ mid) (hi : κ) (log : List α) :
    after key mid (between key lo hi log) = between key mid hi log := by
  rw [after, between, between, List.filter_filter]
  congr 1
  funext x
  by_cases hm : mid < key x
  · simp [hm, h.trans_lt hm]
  · simp [hm]

/-- **Stretches join.** -/
theorem Ascending.between_join {log : List α} (h : Ascending key log) {lo mid hi : κ}
    (h₁ : lo ≤ mid) (h₂ : mid ≤ hi) :
    between key lo mid log ++ between key mid hi log = between key lo hi log := by
  have hsplit := (h.filter fun x => lo < key x && key x ≤ hi).split mid
  rw [← between, filter_le_between h₂, after_between h₁] at hsplit
  exact hsplit

/-- **A page is the stretch up to its last entry.** -/
theorem Ascending.between_page {log : List α} (h : Ascending key log) {c : κ} {n : Nat} {x : α}
    (hx : (page key c n log).getLast? = some x) :
    between key c (key x) log = page key c n log := by
  have hcut : Ascending key (page key c n log ++ (after key c log).drop n) := by
    rw [page, List.take_append_drop]
    exact h.rest c
  have hfront := (hcut.cut hx).1
  rw [page, List.take_append_drop] at hfront
  rw [between_eq_filter_after, hfront, page]

theorem lt_of_mem_page {c : κ} {n : Nat} {log : List α} {x : α} (hx : x ∈ page key c n log) :
    c < key x :=
  (mem_after.1 (List.mem_of_mem_take hx)).2

/-- The selected entries of a stretch, cut after the last of the first `k`. -/
theorem Ascending.cut_filter {log : List α} (h : Ascending key log) {lo hi : κ} (p : α → Bool)
    {k : Nat} {x : α} (hx : (((between key lo hi log).filter p).take k).getLast? = some x) :
    (between key lo (key x) log).filter p = ((between key lo hi log).filter p).take k ∧
      (between key (key x) hi log).filter p = ((between key lo hi log).filter p).drop k := by
  set selected := (between key lo hi log).filter p with hselected
  have hasc : Ascending key (selected.take k ++ selected.drop k) := by
    rw [List.take_append_drop]
    exact (h.filter _).filter p
  have hmem : x ∈ between key lo hi log :=
    (List.mem_filter.1 (List.mem_of_mem_take (List.mem_of_getLast? hx))).1
  obtain ⟨-, hlo, hhi⟩ := mem_between.1 hmem
  obtain ⟨hfront, hback⟩ := hasc.cut hx
  rw [List.take_append_drop] at hfront hback
  constructor
  · rw [← hfront, hselected, List.filter_filter, ← filter_le_between hhi, List.filter_filter]
    congr 1
    funext y
    rw [Bool.and_comm]
  · rw [← hback, hselected, ← after_between hlo.le, after, after, List.filter_filter,
      List.filter_filter]
    congr 1
    funext y
    rw [Bool.and_comm]

end AgentHub.Paging
