import AgentHub.Machine
import Mathlib.Data.List.Nodup
import Mathlib.Data.List.Count

/-!
# De-duplication by a key

Attempts come with a name, and what was added is remembered under a key of its name.  An attempt
whose key is remembered is answered as a duplicate; otherwise it is added, or fails and leaves
nothing behind.

The answers are exact, each name added once and called a duplicate only after that, if and only if
no attempt meets the key of another name (`exactlyOnce_iff`).
-/

namespace AgentHub.Dedup

/-- How far an attempt gets. -/
inductive Fate where
  | unreached
  /-- The key is looked up, and the addition fails. -/
  | fails
  | succeeds
  deriving DecidableEq

inductive Answer where
  | error
  | duplicate
  | added
  deriving DecidableEq

/-- Attempts `α` with names `ν`, remembered under keys `κ`.  An attempt without a name is refused. -/
structure Scheme (α ν κ : Type) where
  name : α → Option ν
  key : ν → κ
  fate : α → Fate

namespace Scheme

variable {α ν κ : Type} (S : Scheme α ν κ)

/-- The name an attempt adds, given its answer. -/
def adds (e : α × Answer) : Option ν := if e.2 = .added then S.name e.1 else none

/-- The names that were added, in their order. -/
def addedNames (log : List (α × Answer)) : List ν := log.filterMap S.adds

theorem addedNames_append (log log' : List (α × Answer)) :
    S.addedNames (log ++ log') = S.addedNames log ++ S.addedNames log' :=
  List.filterMap_append

theorem addedNames_singleton (e : α × Answer) :
    S.addedNames [e] = if e.2 = .added then (S.name e.1).toList else [] := by
  unfold addedNames adds
  split_ifs with h
  · cases hname : S.name e.1 <;> simp [h, hname]
  · simp [h]

variable {S} in
theorem mem_addedNames {log : List (α × Answer)} {n : ν} :
    n ∈ S.addedNames log ↔ ∃ e ∈ log, S.name e.1 = some n ∧ e.2 = .added := by
  unfold addedNames adds
  rw [List.mem_filterMap]
  constructor
  · rintro ⟨e, he, hn⟩
    split_ifs at hn with hadded
    exact ⟨e, he, hn, hadded⟩
  · rintro ⟨e, he, hn, hadded⟩
    exact ⟨e, he, by rw [if_pos hadded, hn]⟩

variable [DecidableEq κ]

def answer (seen : List κ) (a : α) : Answer :=
  match S.name a, S.fate a with
  | none, _ | _, .unreached => .error
  | some n, .fails => if S.key n ∈ seen then .duplicate else .error
  | some n, .succeeds => if S.key n ∈ seen then .duplicate else .added

def machine : Machine (List κ) α (α × Answer) where
  step seen a :=
    let e := (a, S.answer seen a)
    (seen ++ (S.addedNames [e]).map S.key, [e])

/-- The answers to a list of attempts. -/
def log (attempts : List α) : List (α × Answer) := (S.machine.exec [] attempts).2

/-! ### The answers -/

variable {S}

theorem answer_added {seen : List κ} {a : α} (h : S.answer seen a = .added) :
    S.fate a = .succeeds ∧ ∃ n, S.name a = some n ∧ S.key n ∉ seen := by
  unfold answer at h
  split at h
  case h_4 n hname hfate =>
    split_ifs at h with hkey
    exact ⟨hfate, n, hname, hkey⟩
  all_goals (try split_ifs at h) <;> cases h

theorem answer_duplicate {seen : List κ} {a : α} (h : S.answer seen a = .duplicate) :
    S.fate a ≠ .unreached ∧ ∃ n, S.name a = some n ∧ S.key n ∈ seen := by
  unfold answer at h
  split at h
  case h_3 n hname hfate =>
    split_ifs at h with hkey
    exact ⟨by rw [hfate]; decide, n, hname, hkey⟩
  case h_4 n hname hfate =>
    split_ifs at h with hkey
    exact ⟨by rw [hfate]; decide, n, hname, hkey⟩
  all_goals cases h

theorem answer_of_seen {seen : List κ} {a : α} {n : ν} (hname : S.name a = some n)
    (hfate : S.fate a ≠ .unreached) (h : S.key n ∈ seen) : S.answer seen a = .duplicate := by
  unfold answer
  rw [hname]
  cases hf : S.fate a with
  | unreached => exact absurd hf hfate
  | fails => exact if_pos h
  | succeeds => exact if_pos h

theorem answer_of_fails {seen : List κ} {a : α} {n : ν} (hname : S.name a = some n)
    (h : S.fate a = .unreached ∨ S.key n ∉ seen ∧ S.fate a = .fails) : S.answer seen a = .error := by
  unfold answer
  rw [hname]
  rcases h with hfate | ⟨hkey, hfate⟩
  · rw [hfate]
  · rw [hfate]
    exact if_neg hkey

theorem answer_of_notMem {seen : List κ} {a : α} {n : ν} (hname : S.name a = some n)
    (hfate : S.fate a = .succeeds) (h : S.key n ∉ seen) : S.answer seen a = .added := by
  unfold answer
  rw [hname, hfate]
  exact if_neg h

/-! ### Runs -/

/-- What is remembered are the keys of the names that were added, all of them different. -/
theorem exec_spec (attempts : List α) :
    (S.machine.exec [] attempts).1 = (S.addedNames (S.log attempts)).map S.key ∧
      ((S.addedNames (S.log attempts)).map S.key).Nodup := by
  refine S.machine.exec_induction (P := fun _ seen log => seen = (S.addedNames log).map S.key ∧
    ((S.addedNames log).map S.key).Nodup) ⟨rfl, List.nodup_nil⟩ ?_ attempts
  rintro as seen log a ⟨rfl, hnodup⟩
  simp only [machine, addedNames_append, List.map_append, true_and]
  rw [addedNames_singleton]
  split_ifs with hadded
  · obtain ⟨-, n, hname, hkey⟩ := answer_added hadded
    rw [hname, Option.toList_some, List.map_singleton, List.nodup_append]
    refine ⟨hnodup, List.nodup_singleton _, ?_⟩
    rintro x hx y hy rfl
    exact hkey (List.mem_singleton.1 hy ▸ hx)
  · simpa using hnodup

/-- The log, attempt by attempt. -/
theorem log_snoc (attempts : List α) (a : α) :
    S.log (attempts ++ [a]) =
      S.log attempts ++ [(a, S.answer ((S.addedNames (S.log attempts)).map S.key) a)] := by
  rw [← (exec_spec attempts).1]
  unfold log
  rw [Machine.exec_snoc]
  rfl

/-- An entry of the log, with the log before it. -/
theorem log_split {attempts : List α} {pre post : List (α × Answer)} {e : α × Answer}
    (h : S.log attempts = pre ++ e :: post) :
    ∃ before after, attempts = before ++ e.1 :: after ∧ S.log before = pre ∧
      e.2 = S.answer ((S.addedNames pre).map S.key) e.1 := by
  induction attempts using List.reverseRecOn generalizing post with
  | nil => simp [log] at h
  | append_singleton attempts a ih =>
    rw [log_snoc] at h
    rcases List.eq_nil_or_concat post with rfl | ⟨post, last, rfl⟩
    · obtain ⟨hpre, he⟩ := List.append_inj' h rfl
      obtain rfl := List.singleton_inj.1 he
      exact ⟨attempts, [], rfl, hpre, by rw [hpre]⟩
    · rw [List.concat_eq_append, ← List.cons_append, ← List.append_assoc] at h
      obtain ⟨hlog, -⟩ := List.append_inj' h rfl
      obtain ⟨before, after, rfl, hpre, he⟩ := ih hlog
      exact ⟨before, after ++ [a], by simp, hpre, he⟩

/-- An attempt, with the log before it. -/
theorem log_of_split (before after : List α) (a : α) :
    ∃ post, S.log (before ++ a :: after) = S.log before ++
      (a, S.answer ((S.addedNames (S.log before)).map S.key) a) :: post := by
  induction after using List.reverseRecOn with
  | nil => exact ⟨[], log_snoc before a⟩
  | append_singleton after b ih =>
    obtain ⟨post, h⟩ := ih
    rw [← List.cons_append, ← List.append_assoc, log_snoc, h]
    exact ⟨_, by rw [List.append_assoc, List.cons_append]⟩

/-! ### Exact answers -/

/-- Each name that got an answer is added once, a duplicate was added before, and a name that was
not added yet is added by the next attempt that succeeds. -/
structure ExactlyOnce [BEq ν] (S : Scheme α ν κ) (log : List (α × Answer)) : Prop where
  once : ∀ n, ((∃ e ∈ log, S.name e.1 = some n ∧ e.2 ≠ .error) → (S.addedNames log).count n = 1) ∧
    ((∀ e ∈ log, S.name e.1 = some n → e.2 = .error) → (S.addedNames log).count n = 0)
  duplicate : ∀ pre e post n, log = pre ++ e :: post → S.name e.1 = some n → e.2 = .duplicate →
    n ∈ S.addedNames pre
  retry : ∀ pre e post n, log = pre ++ e :: post → S.name e.1 = some n →
    S.fate e.1 = .succeeds → n ∉ S.addedNames pre → e.2 = .added

/-- No attempt meets the key of another name: not after one that succeeded. -/
def Separate (S : Scheme α ν κ) (attempts : List α) : Prop :=
  attempts.Pairwise fun a b => S.fate a = .succeeds → S.fate b ≠ .unreached →
    ∀ n n', S.name a = some n → S.name b = some n' → S.key n = S.key n' → n = n'

/-- The key of a successful attempt is remembered from then on. -/
theorem key_mem_of_succeeds {attempts : List α} {a : α} {n : ν} (ha : a ∈ attempts)
    (hname : S.name a = some n) (hfate : S.fate a = .succeeds) :
    S.key n ∈ (S.addedNames (S.log attempts)).map S.key := by
  obtain ⟨before, after, rfl⟩ := List.append_of_mem ha
  obtain ⟨post, hlog⟩ := S.log_of_split before after a
  rw [hlog, addedNames_append, List.map_append, List.mem_append]
  by_cases hkey : S.key n ∈ (S.addedNames (S.log before)).map S.key
  · exact .inl hkey
  · refine .inr (List.mem_map.2 ⟨n, mem_addedNames.2 ⟨_, List.mem_cons_self, hname, ?_⟩, rfl⟩)
    exact answer_of_notMem hname hfate hkey

/-- What was added came from an attempt that succeeded. -/
theorem succeeds_of_added {attempts : List α} {n : ν} (h : n ∈ S.addedNames (S.log attempts)) :
    ∃ a ∈ attempts, S.name a = some n ∧ S.fate a = .succeeds := by
  obtain ⟨e, he, hname, hadded⟩ := mem_addedNames.1 h
  obtain ⟨pre, post, hlog⟩ := List.append_of_mem he
  obtain ⟨before, after, rfl, -, hanswer⟩ := log_split hlog
  rw [hadded] at hanswer
  exact ⟨e.1, by simp, hname, (answer_added hanswer.symm).1⟩

/-- A duplicate has a name. -/
theorem exists_name_of_duplicate {attempts : List α} {e : α × Answer} (he : e ∈ S.log attempts)
    (h : e.2 = .duplicate) : ∃ n, S.name e.1 = some n := by
  obtain ⟨pre, post, hlog⟩ := List.append_of_mem he
  obtain ⟨before, after, rfl, -, hanswer⟩ := log_split hlog
  obtain ⟨-, n, hname, -⟩ := answer_duplicate (hanswer.symm.trans h)
  exact ⟨n, hname⟩

/-- An attempt that succeeded has an answer, whichever it is. -/
theorem exists_answer_of_succeeds {attempts : List α} {a : α} {n : ν} (ha : a ∈ attempts)
    (hname : S.name a = some n) (hfate : S.fate a = .succeeds) :
    ∃ e ∈ S.log attempts, S.name e.1 = some n ∧ e.2 ≠ .error := by
  obtain ⟨before, after, rfl⟩ := List.append_of_mem ha
  obtain ⟨post, hlog⟩ := S.log_of_split before after a
  refine ⟨_, hlog ▸ List.mem_append_right _ List.mem_cons_self, hname, ?_⟩
  by_cases hkey : S.key n ∈ (S.addedNames (S.log before)).map S.key
  · rw [answer_of_seen hname (by rw [hfate]; decide) hkey]
    rintro ⟨⟩
  · rw [answer_of_notMem hname hfate hkey]
    rintro ⟨⟩

theorem addedNames_nodup (attempts : List α) : (S.addedNames (S.log attempts)).Nodup :=
  (S.exec_spec attempts).2.of_map

theorem Separate.duplicate {attempts : List α} (h : Separate S attempts)
    {pre post : List (α × Answer)} {e : α × Answer} {n : ν}
    (hlog : S.log attempts = pre ++ e :: post) (hname : S.name e.1 = some n)
    (he : e.2 = .duplicate) : n ∈ S.addedNames pre := by
  obtain ⟨before, after, rfl, rfl, hanswer⟩ := log_split hlog
  rw [he] at hanswer
  obtain ⟨hfate, n', hname', hseen⟩ := answer_duplicate hanswer.symm
  obtain rfl : n' = n := Option.some.inj (hname'.symm.trans hname)
  obtain ⟨n₀, hn₀, hkey⟩ := List.mem_map.1 hseen
  obtain ⟨a, ha, hname₀, hfate₀⟩ := succeeds_of_added hn₀
  have hpair := (List.pairwise_append.1 h).2.2 a ha e.1 List.mem_cons_self
  rw [← hpair hfate₀ hfate n₀ n' hname₀ hname hkey]
  exact hn₀

variable [BEq ν] [LawfulBEq ν]

theorem ExactlyOnce.separate {attempts : List α} (h : ExactlyOnce S (S.log attempts)) :
    Separate S attempts := by
  apply List.pairwise_iff_forall_sublist.2
  intro a b hab hfate hfate' n n' hname hname' hkey
  obtain ⟨first, rest, rfl, ha, hb⟩ := List.cons_sublist_iff.1 hab
  obtain ⟨middle, after, rfl⟩ := List.append_of_mem (List.singleton_sublist.1 hb)
  have hmem : a ∈ first ++ middle := List.mem_append_left _ ha
  -- the second attempt finds the key of the first
  have hseen := key_mem_of_succeeds hmem hname hfate
  rw [hkey] at hseen
  obtain ⟨post, hlog⟩ := S.log_of_split (first ++ middle) after b
  rw [List.append_assoc, answer_of_seen hname' hfate' hseen] at hlog
  have hb' := h.duplicate _ _ post n' hlog hname' rfl
  -- so both names were added, under one key
  have hall : n' ∈ S.addedNames (S.log (first ++ (middle ++ b :: after))) := by
    rw [hlog, addedNames_append]
    exact List.mem_append_left _ hb'
  have hn : n ∈ S.addedNames (S.log (first ++ (middle ++ b :: after))) := by
    have hcount := (h.once n).1 (exists_answer_of_succeeds (List.mem_append_left _ ha) hname hfate)
    exact List.count_pos_iff.1 (by omega)
  exact List.inj_on_of_nodup_map (S.exec_spec _).2 hn hall hkey

/-- **The answers are exact when no attempt meets the key of another name, and only then.** -/
theorem exactlyOnce_iff (attempts : List α) :
    ExactlyOnce S (S.log attempts) ↔ Separate S attempts := by
  refine ⟨ExactlyOnce.separate, fun h => ⟨fun n => ⟨?_, ?_⟩, ?_, ?_⟩⟩
  · rintro ⟨e, he, hname, hanswer⟩
    -- a name with an answer was added once
    apply List.count_eq_one_of_mem (addedNames_nodup attempts)
    cases hans : e.2 with
    | error => exact absurd hans hanswer
    | added => exact mem_addedNames.2 ⟨e, he, hname, hans⟩
    | duplicate =>
      obtain ⟨pre, post, hlog⟩ := List.append_of_mem he
      rw [hlog, addedNames_append]
      exact List.mem_append_left _ (h.duplicate hlog hname hans)
  · intro hnone
    rw [List.count_eq_zero, mem_addedNames]
    rintro ⟨e, he, hname, hadded⟩
    rw [hnone e he hname] at hadded
    cases hadded
  · -- a duplicate was added before, since no two names share a key
    intro pre e post n hlog hname he
    exact h.duplicate hlog hname he
  · intro pre e post n hlog hname hfate hnew
    obtain ⟨before, after, rfl, rfl, hanswer⟩ := log_split hlog
    rw [hanswer]
    apply answer_of_notMem hname hfate
    intro hseen
    apply hnew
    exact h.duplicate hlog hname (hanswer.trans (answer_of_seen hname (by rw [hfate]; decide) hseen))

end Scheme

end AgentHub.Dedup
