import AgentHub.Paging
import Mathlib.Data.List.DropRight

/-!
# Reading a log backwards

A reader of a log asks for pages of the newest entries below a bound, keeps what it selects until it
has enough, and moves the bound to the oldest entry of each page.  It ends early on a page that is
not full, and may give up after so many entries.

`walk_spec`: on an ascending log the walk comes to its end, and what it gathers are the newest
selected entries, wherever they lie relative to the ends of the pages.
-/

namespace AgentHub.Paging

variable {α β κ ε : Type*} [LinearOrder κ] (key : α → κ)

/-- The entries below a bound, newest first. -/
def before (bound : Option κ) (log : List α) : List α :=
  (log.filter fun x => bound.all (key x < ·)).reverse

/-- One page of a walk: what is selected is gathered up to the limit. -/
def gather (keep : α → Option β) (limit : Nat) : List β → List α → List β
  | acc, [] => acc
  | acc, x :: xs =>
    match keep x with
    | none => gather keep limit acc xs
    | some b => if limit ≤ acc.length + 1 then acc ++ [b] else gather keep limit (acc ++ [b]) xs

/-- The pages one after the other; `stop` says after how many entries the walk gives up, and `none`
is a walk that is not at its end yet. -/
def walk (read : Option κ → Except ε (List α)) (keep : α → Option β) (limit size : Nat)
    (stop : Nat → Bool) : Nat → Option κ → Nat → List β → Option (Except ε (List β))
  | 0, _, _, _ => none
  | fuel + 1, bound, scanned, acc =>
    if stop scanned then some (.ok acc)
    else
      match read bound with
      | .error e => some (.error e)
      | .ok page =>
        match page.getLast? with
        | none => some (.ok acc)
        | some oldest =>
          let acc := gather keep limit acc page
          if limit ≤ acc.length ∨ page.length < size then some (.ok acc)
          else walk read keep limit size stop fuel (some (key oldest)) (scanned + page.length) acc

theorem gather_spec {keep : α → Option β} {limit : Nat} {xs : List α} :
    ∀ {acc : List β}, acc.length < limit →
      gather keep limit acc xs = acc ++ (xs.filterMap keep).take (limit - acc.length) := by
  induction xs with
  | nil => simp [gather]
  | cons x xs ih =>
    intro acc hacc
    rw [gather]
    cases hx : keep x with
    | none =>
      rw [List.filterMap_cons_none hx]
      exact ih hacc
    | some b =>
      rw [List.filterMap_cons_some hx]
      dsimp only
      -- the last item wanted
      split_ifs with hfull
      · obtain hone : limit - acc.length = 1 := by omega
        rw [hone]
        simp
      · have hlength : (acc ++ [b]).length = acc.length + 1 := by simp
        rw [ih (by omega), hlength, List.append_assoc, List.singleton_append]
        obtain ⟨rest, hrest⟩ : ∃ rest, limit - acc.length = rest + 1 := ⟨limit - acc.length - 1, by omega⟩
        rw [hrest, List.take_succ_cons]
        congr 3
        omega

variable {key}

/-- Newest first, the keys descend. -/
theorem Ascending.before_pairwise {log : List α} (h : Ascending key log) (bound : Option κ) :
    (before key bound log).Pairwise fun x y => key y < key x :=
  List.pairwise_reverse.2 (h.filter _)

theorem mem_before {bound : Option κ} {log : List α} {x : α} :
    x ∈ before key bound log ↔ x ∈ log ∧ ∀ b ∈ bound, key x < b := by
  simp [before, Option.all_eq_true]

/-- Below the oldest entry of a page is what the page leaves. -/
theorem Ascending.before_oldest {log : List α} (h : Ascending key log) {bound : Option κ}
    {page rest : List α} {oldest : α} (hsplit : before key bound log = page ++ rest)
    (holdest : page.getLast? = some oldest) : before key (some (key oldest)) log = rest := by
  have hpairs := h.before_pairwise bound
  rw [hsplit] at hpairs
  obtain ⟨hpage, -, hcross⟩ := List.pairwise_append.1 hpairs
  have hmem : oldest ∈ page := List.mem_of_getLast? holdest
  have hbound : ∀ b ∈ bound, key oldest < b := by
    have hin : oldest ∈ before key bound log := hsplit ▸ List.mem_append_left _ hmem
    exact (mem_before.1 hin).2
  -- what is below the oldest entry is below the bound
  have hsame : before key (some (key oldest)) log =
      (before key bound log).filter fun x => key x < key oldest := by
    rw [before, before, List.filter_reverse, List.filter_filter]
    congr 2
    funext x
    by_cases hx : key x < key oldest
    · have hall : bound.all (key x < ·) = true :=
        (Option.all_eq_true _ _).2 fun b hb => by simpa using hx.trans (hbound b hb)
      simp [hx, hall]
    · simp [hx]
  rw [hsame, hsplit, List.filter_append, List.filter_eq_nil_iff.2, List.filter_eq_self.2,
    List.nil_append]
  · intro x hx
    simpa using hcross oldest hmem x hx
  · obtain ⟨init, rfl⟩ := List.getLast?_eq_some_iff.1 holdest
    intro x hx
    rcases List.mem_append.1 hx with hx | hx
    · have hlt := (List.pairwise_append.1 hpage).2.2 x hx oldest (by simp)
      simpa using hlt.le
    · rw [List.mem_singleton.1 hx]
      simp

/-- **A walk gathers the newest selected entries.** -/
theorem Ascending.walk_spec {log : List α} (h : Ascending key log)
    {read : Option κ → Except ε (List α)} {keep : α → Option β} {limit size : Nat}
    {stop : Nat → Bool} (hsize : 0 < size)
    (hread : ∀ bound, read bound = .ok ((before key bound log).take size)) :
    ∀ {fuel scanned : Nat} {bound : Option κ} {acc : List β},
      (before key bound log).length < fuel → acc.length < limit →
      (∀ n ≤ scanned + (before key bound log).length, stop n = false) →
      walk key read keep limit size stop fuel bound scanned acc =
        some (.ok (acc ++ ((before key bound log).filterMap keep).take (limit - acc.length))) := by
  intro fuel
  induction fuel with
  | zero =>
    intro _ _ _ hfuel
    exact absurd hfuel (Nat.not_lt_zero _)
  | succ fuel ih =>
    intro scanned bound acc hfuel hacc hstop
    set whole := before key bound log with hwhole
    have hsplit : whole = whole.take size ++ whole.drop size := (List.take_append_drop _ _).symm
    have hgo : stop scanned = false := hstop scanned (Nat.le_add_right _ _)
    rw [walk, hread, if_neg (by simp [hgo])]
    dsimp only
    rw [← hwhole]
    cases holdest : (whole.take size).getLast? with
    | none =>
      have hempty : whole = [] := by
        have hnil := List.getLast?_eq_none_iff.1 holdest
        rcases List.take_eq_nil_iff.1 hnil with hzero | hnil
        · omega
        · exact hnil
      rw [hempty]
      simp
    | some oldest =>
      dsimp only
      rw [gather_spec hacc]
      set found := (whole.take size).filterMap keep with hfound
      have hall : whole.filterMap keep = found ++ (whole.drop size).filterMap keep := by
        rw [hfound, ← List.filterMap_append, List.take_append_drop]
      rw [hall]
      by_cases hfull : limit - acc.length ≤ found.length
      · -- the page has all that is still wanted
        rw [if_pos, List.take_append_of_le_length hfull]
        left
        rw [List.length_append, List.length_take]
        omega
      · rw [List.take_of_length_le (by omega : found.length ≤ limit - acc.length)]
        -- a short page is the last one
        by_cases hshort : (whole.take size).length < size
        · have hrest : whole.drop size = [] := by
            rw [List.length_take] at hshort
            exact List.drop_eq_nil_of_le (by omega)
          rw [if_pos (Or.inr hshort), hrest, List.filterMap_nil, List.append_nil,
            List.take_of_length_le (by omega : found.length ≤ limit - acc.length)]
        · -- a full page: the walk goes on behind its oldest item
          have hrest : before key (some (key oldest)) log = whole.drop size :=
            h.before_oldest (hwhole ▸ hsplit) holdest
          have hlength : whole.length = (whole.take size).length + (whole.drop size).length := by
            rw [← List.length_append, List.take_append_drop]
          have hpage : 0 < (whole.take size).length := by omega
          have hacc' : (acc ++ found).length < limit := by
            rw [List.length_append]
            omega
          have hstop' : ∀ n ≤ scanned + (whole.take size).length + (whole.drop size).length,
              stop n = false := fun n hn => hstop n (by omega)
          rw [if_neg (by omega), ih (by rw [hrest]; omega) hacc' (by rw [hrest]; exact hstop'),
            hrest, List.append_assoc, List.length_append, List.take_append,
            List.take_of_length_le (by omega : found.length ≤ limit - acc.length), Nat.sub_sub]

end AgentHub.Paging
