import AgentHub.Paging

/-!
# Resuming at the last entry

A reader of a log asks for a page from the last entry it has on, that entry included, and drops the
first of what it gets.  `readViews` is what it reads where every page is of another view of the log, up
to a page with nothing new.

Each entry is read once and in order whatever the views are (`readViews_ascending`).  An entry that is
in all of the views is read exactly where no page drops it: `readViews_iff`, with `Keeps` for the
condition on the pages.
-/

namespace AgentHub.Resume

open AgentHub.Paging

variable {α κ : Type*} [LinearOrder κ] (key : α → κ) (size : Nat)

/-- The entries from a bound on; all of them where there is none yet. -/
def atLeast (c : Option κ) (view : List α) : List α := view.filter fun x => c.all (· ≤ key x)

/-- What is kept of a page: behind a bound, all but its first entry. -/
def fresh (c : Option κ) (view : List α) : List α :=
  if c.isSome then ((atLeast key c view).take size).tail else (atLeast key c view).take size

/-- What a reader with a bound reads, one view for each page; none if the last page is not the first
with nothing new. -/
def readViews : Option κ → List (List α) → Option (List α)
  | _, [] => none
  | c, view :: views =>
    match (fresh key size c view).getLast? with
    | none => if views.isEmpty then some [] else none
    | some last => (readViews (some (key last)) views).map (fresh key size c view ++ ·)

/-- At every page the bound is still in the view, or the first entry from it on is none to keep. -/
def Keeps (kept : α → Prop) : Option κ → List (List α) → Prop
  | _, [] => True
  | c, view :: views =>
    (∀ b ∈ c, (∃ x ∈ view, key x = b) ∨ ∀ x ∈ (atLeast key c view).head?, ¬kept x) ∧
      ∀ last ∈ (fresh key size c view).getLast?, Keeps kept (some (key last)) views

variable {key size}

/-! ### Keys -/

/-- A log has one entry of a key. -/
theorem filter_key_eq {log : List α} (h : Ascending key log) {x : α} (hx : x ∈ log) :
    log.filter (fun y => key y = key x) = [x] := by
  induction log with
  | nil => cases hx
  | cons z log ih =>
    obtain ⟨hz, hlog⟩ := List.pairwise_cons.1 h
    rcases List.mem_cons.1 hx with rfl | hx
    · have hnil : log.filter (fun y => key y = key x) = [] := by
        rw [List.filter_eq_nil_iff]
        intro y hy
        simpa using (hz y hy).ne'
      rw [List.filter_cons_of_pos (by simp), hnil]
    · rw [List.filter_cons_of_neg (by simpa using (hz x hx).ne), ih hlog hx]

theorem eq_of_key {log : List α} (h : Ascending key log) {x y : α} (hx : x ∈ log) (hy : y ∈ log)
    (hkey : key y = key x) : y = x := by
  have hmem : y ∈ log.filter fun y => key y = key x := List.mem_filter.2 ⟨hy, by simpa using hkey⟩
  rw [filter_key_eq h hx] at hmem
  exact List.mem_singleton.1 hmem

/-! ### One page -/

theorem mem_atLeast {c : Option κ} {view : List α} {x : α} :
    x ∈ atLeast key c view ↔ x ∈ view ∧ ∀ b ∈ c, b ≤ key x := by
  cases c <;> simp [atLeast]

theorem atLeast_none (view : List α) : atLeast key none view = view := by
  rw [atLeast]
  exact List.filter_eq_self.2 fun _ _ => rfl

theorem fresh_some (b : κ) (view : List α) :
    fresh key size (some b) view = ((atLeast key (some b) view).take size).tail := rfl

theorem fresh_none (view : List α) : fresh key size none view = view.take size := by
  rw [fresh, if_neg (by simp), atLeast_none]

theorem fresh_sublist (c : Option κ) (view : List α) : (fresh key size c view).Sublist view := by
  have htake : ((atLeast key c view).take size).Sublist view :=
    (List.take_sublist _ _).trans List.filter_sublist
  rw [fresh]
  split
  · exact (List.tail_sublist _).trans htake
  · exact htake

theorem fresh_ascending {view : List α} (h : Ascending key view) (c : Option κ) :
    Ascending key (fresh key size c view) := h.sublist (fresh_sublist c view)

/-- A page begins with the entry that is dropped from it. -/
theorem take_eq_cons {b : κ} {view : List α} {x : α} (hsize : 0 < size)
    (hx : (atLeast key (some b) view).head? = some x) :
    (atLeast key (some b) view).take size = x :: fresh key size (some b) view := by
  obtain ⟨rest, hrest⟩ := List.head?_eq_some_iff.1 hx
  obtain ⟨n, rfl⟩ := Nat.exists_eq_add_one.2 hsize
  rw [fresh_some, hrest, List.take_succ_cons, List.tail_cons]

theorem ascending_page {view : List α} (h : Ascending key view) (c : Option κ) :
    Ascending key ((atLeast key c view).take size) :=
  h.sublist ((List.take_sublist _ _).trans List.filter_sublist)

/-- The dropped entry is before the others. -/
theorem head_lt_of_mem_fresh {b : κ} {view : List α} {x y : α} (h : Ascending key view)
    (hsize : 0 < size) (hx : (atLeast key (some b) view).head? = some x)
    (hy : y ∈ fresh key size (some b) view) : key x < key y := by
  have hpage : Ascending key ((atLeast key (some b) view).take size) := ascending_page h (some b)
  rw [take_eq_cons hsize hx] at hpage
  exact (List.pairwise_cons.1 hpage).1 y hy

/-- What is kept is behind the bound. -/
theorem lt_of_mem_fresh {c : Option κ} {view : List α} {x : α} (h : Ascending key view)
    (hsize : 0 < size) (hx : x ∈ fresh key size c view) : ∀ b ∈ c, b < key x := by
  rintro b rfl
  match hhead : (atLeast key (some b) view).head? with
  | none =>
    rw [fresh_some, List.head?_eq_none_iff.1 hhead] at hx
    simp at hx
  | some y =>
    have hy : y ∈ atLeast key (some b) view := List.mem_of_head? hhead
    have hle : b ≤ key y := (mem_atLeast.1 hy).2 b rfl
    exact hle.trans_lt (head_lt_of_mem_fresh h hsize hhead hx)

/-- An entry of a page is kept or dropped. -/
theorem mem_fresh_or_head {c : Option κ} {view : List α} {x : α}
    (hx : x ∈ (atLeast key c view).take size) :
    x ∈ fresh key size c view ∨ ∃ b ∈ c, (atLeast key c view).head? = some x := by
  have hsize : 0 < size := by
    by_contra hzero
    rw [Nat.eq_zero_of_not_pos hzero, List.take_zero] at hx
    simp at hx
  cases c with
  | none => exact Or.inl (by rwa [fresh, if_neg (by simp)])
  | some b =>
    match hhead : (atLeast key (some b) view).head? with
    | none =>
      rw [List.head?_eq_none_iff.1 hhead] at hx
      simp at hx
    | some y =>
      rw [take_eq_cons hsize hhead] at hx
      rcases List.mem_cons.1 hx with rfl | hx
      · exact Or.inr ⟨b, rfl, rfl⟩
      · exact Or.inl hx

theorem getLast?_page {c : Option κ} {view : List α} {last : α}
    (h : (fresh key size c view).getLast? = some last) :
    ((atLeast key c view).take size).getLast? = some last := by
  rw [fresh] at h
  split at h
  · rw [List.getLast?_tail] at h
    split at h
    · cases h
    · exact h
  · exact h

/-- Up to its last entry a page passes over nothing but the entry it drops. -/
theorem passed {c : Option κ} {view : List α} {x last : α} (h : Ascending key view)
    (hx : x ∈ view) (hc : ∀ b ∈ c, b < key x)
    (hlast : (fresh key size c view).getLast? = some last) (hle : key x ≤ key last) :
    x ∈ fresh key size c view ∨ ∃ b ∈ c, (atLeast key c view).head? = some x := by
  have hasc : Ascending key
      ((atLeast key c view).take size ++ (atLeast key c view).drop size) := by
    rw [List.take_append_drop]
    exact h.filter _
  have hcut := (hasc.cut (getLast?_page hlast)).1
  have hmem : x ∈ atLeast key c view := mem_atLeast.2 ⟨hx, fun b hb => (hc b hb).le⟩
  apply mem_fresh_or_head
  rw [← hcut, List.take_append_drop]
  exact List.mem_filter.2 ⟨hmem, by simpa using hle⟩

/-- A page with nothing new passes over nothing but the entry it drops. -/
theorem passed_end {c : Option κ} {view : List α} {x : α} (hsize : 2 ≤ size) (hx : x ∈ view)
    (hc : ∀ b ∈ c, b < key x) (hend : fresh key size c view = []) :
    ∃ b ∈ c, (atLeast key c view).head? = some x := by
  have hmem : x ∈ atLeast key c view := mem_atLeast.2 ⟨hx, fun b hb => (hc b hb).le⟩
  have hpage : x ∈ (atLeast key c view).take size := by
    -- the page has one entry at most, so it is all there is
    have hlen : ((atLeast key c view).take size).length ≤ 1 := by
      rw [fresh] at hend
      split at hend
      · have := congrArg List.length hend
        rw [List.length_tail, List.length_nil] at this
        omega
      · rw [hend]
        exact Nat.zero_le 1
    rw [List.length_take] at hlen
    rwa [List.take_of_length_le (by omega)]
  rcases mem_fresh_or_head hpage with hfresh | hhead
  · rw [hend] at hfresh
    simp at hfresh
  · exact hhead

/-! ### All pages -/

/-- What is read comes behind the bound. -/
theorem lt_of_mem_readViews (hsize : 0 < size) {views : List (List α)} :
    ∀ {c : Option κ} {xs : List α}, (∀ view ∈ views, Ascending key view) →
      readViews key size c views = some xs → ∀ x ∈ xs, ∀ b ∈ c, b < key x := by
  induction views with
  | nil =>
    intro c xs _ h
    cases h
  | cons view views ih =>
    intro c xs hviews h x hx b hb
    obtain ⟨hview, hviews⟩ := List.forall_mem_cons.1 hviews
    rw [readViews] at h
    split at h
    case h_1 =>
      split at h
      · obtain rfl := Option.some.inj h
        simp at hx
      · cases h
    case h_2 last hlast =>
      obtain ⟨rest, hrest, rfl⟩ := Option.map_eq_some_iff.1 h
      rcases List.mem_append.1 hx with hx | hx
      · exact lt_of_mem_fresh hview hsize hx b hb
      · have hlt := lt_of_mem_fresh hview hsize (List.mem_of_getLast? hlast) b hb
        exact hlt.trans (ih hviews hrest x hx _ rfl)

/-- The keys of a page are bounded by that of its last entry. -/
theorem le_last_of_mem_fresh {c : Option κ} {view : List α} {x last : α} (h : Ascending key view)
    (hlast : (fresh key size c view).getLast? = some last) (hx : x ∈ fresh key size c view) :
    key x ≤ key last := by
  obtain ⟨front, hfront⟩ := List.getLast?_eq_some_iff.1 hlast
  have hasc : Ascending key (fresh key size c view) := fresh_ascending h c
  rw [hfront] at hasc hx
  rcases List.mem_append.1 hx with hx | hx
  · exact ((List.pairwise_append.1 hasc).2.2 x hx last (by simp)).le
  · rw [List.mem_singleton.1 hx]

theorem mem_of_mem_readViews {views : List (List α)} :
    ∀ {c : Option κ} {xs : List α}, readViews key size c views = some xs →
      ∀ x ∈ xs, ∃ view ∈ views, x ∈ view := by
  induction views with
  | nil =>
    intro c xs h
    cases h
  | cons view views ih =>
    intro c xs h x hx
    rw [readViews] at h
    split at h
    case h_1 =>
      split at h
      · obtain rfl := Option.some.inj h
        simp at hx
      · cases h
    case h_2 last hlast =>
      obtain ⟨rest, hrest, rfl⟩ := Option.map_eq_some_iff.1 h
      rcases List.mem_append.1 hx with hx | hx
      · exact ⟨view, List.mem_cons_self, (fresh_sublist c view).subset hx⟩
      · obtain ⟨v, hv, hmem⟩ := ih hrest x hx
        exact ⟨v, List.mem_cons_of_mem _ hv, hmem⟩

/-- **Nothing is read twice**, and what is read is in order. -/
theorem readViews_ascending (hsize : 0 < size) {views : List (List α)} :
    ∀ {c : Option κ} {xs : List α}, (∀ view ∈ views, Ascending key view) →
      readViews key size c views = some xs → Ascending key xs := by
  induction views with
  | nil =>
    intro c xs _ h
    cases h
  | cons view views ih =>
    intro c xs hviews h
    obtain ⟨hview, hviews⟩ := List.forall_mem_cons.1 hviews
    rw [readViews] at h
    split at h
    case h_1 =>
      split at h
      · obtain rfl := Option.some.inj h
        exact List.Pairwise.nil
      · cases h
    case h_2 last hlast =>
      obtain ⟨rest, hrest, rfl⟩ := Option.map_eq_some_iff.1 h
      refine List.pairwise_append.2 ⟨fresh_ascending hview c, ih hviews hrest, ?_⟩
      intro x hx y hy
      have hle := le_last_of_mem_fresh hview hlast hx
      exact hle.trans_lt (lt_of_mem_readViews hsize hviews hrest y hy _ rfl)

/-- An entry that is in every view is dropped only where its page no longer has the bound. -/
theorem not_dropped {kept : α → Prop} {b : κ} {view : List α} {x : α} (hview : Ascending key view)
    (hx : kept x) (hlt : b < key x) (hhead : (atLeast key (some b) view).head? = some x)
    (h : (∃ y ∈ view, key y = b) ∨ ∀ y ∈ (atLeast key (some b) view).head?, ¬kept y) : False := by
  rcases h with ⟨y, hy, hkey⟩ | h
  · have hmem : y ∈ atLeast key (some b) view :=
      mem_atLeast.2 ⟨hy, fun b' hb' => by rw [← Option.some.inj hb', hkey]⟩
    obtain ⟨rest, hrest⟩ := List.head?_eq_some_iff.1 hhead
    have hasc : Ascending key (atLeast key (some b) view) := hview.filter _
    rw [hrest] at hasc hmem
    rcases List.mem_cons.1 hmem with rfl | hmem
    · exact absurd hkey hlt.ne'
    · have hbehind := (List.pairwise_cons.1 hasc).1 y hmem
      rw [hkey] at hbehind
      exact absurd hlt hbehind.not_gt
  · exact h x hhead hx

/-- **What stays is read** exactly where no page drops it. -/
theorem readViews_iff {kept : α → Prop} (hsize : 2 ≤ size) {views : List (List α)} :
    ∀ {c : Option κ} {xs : List α}, (∀ view ∈ views, Ascending key view) →
      (∀ x, kept x → ∀ view ∈ views, x ∈ view) → readViews key size c views = some xs →
      ((∀ x, kept x → (∀ b ∈ c, b < key x) → x ∈ xs) ↔ Keeps key size kept c views) := by
  have hpos : 0 < size := by omega
  induction views with
  | nil =>
    intro c xs _ _ h
    cases h
  | cons view views ih =>
    intro c xs hviews hkept h
    obtain ⟨hview, hviews'⟩ := List.forall_mem_cons.1 hviews
    have hkept' : ∀ x, kept x → ∀ view ∈ views, x ∈ view :=
      fun x hx v hv => hkept x hx v (List.mem_cons_of_mem _ hv)
    have hhere : ∀ x, kept x → x ∈ view := fun x hx => hkept x hx view List.mem_cons_self
    -- an entry the page drops is not read later
    have hdropped : ∀ b ∈ c, ∀ x, (atLeast key c view).head? = some x → x ∉ xs := by
      rintro b rfl x hhead hx
      rw [readViews] at h
      split at h
      case h_1 =>
        split at h
        · obtain rfl := Option.some.inj h
          simp at hx
        · cases h
      case h_2 last hlast =>
        obtain ⟨rest, hrest, rfl⟩ := Option.map_eq_some_iff.1 h
        have hlt := head_lt_of_mem_fresh hview hpos hhead (List.mem_of_getLast? hlast)
        rcases List.mem_append.1 hx with hx | hx
        · exact absurd (head_lt_of_mem_fresh hview hpos hhead hx) (lt_irrefl _)
        · exact absurd (lt_of_mem_readViews hpos hviews' hrest x hx _ rfl) hlt.not_gt
    constructor
    · intro hall
      rw [Keeps]
      constructor
      · intro b hb
        by_contra hnot
        obtain ⟨habsent, hhead⟩ := not_or.1 hnot
        push Not at hhead
        obtain ⟨x, hx, hstays⟩ := hhead
        have hmem := mem_atLeast.1 (List.mem_of_head? hx)
        -- the bound is not in the view, so the dropped entry is behind it
        have hlt : ∀ b' ∈ c, b' < key x := by
          intro b' hb'
          obtain rfl : b = b' := Option.some.inj (hb.symm.trans hb')
          refine lt_of_le_of_ne (hmem.2 b hb) ?_
          rintro rfl
          exact habsent ⟨x, hmem.1, rfl⟩
        exact hdropped b hb x hx (hall x hstays hlt)
      · intro last hlast
        rw [readViews, hlast] at h
        obtain ⟨rest, hrest, rfl⟩ := Option.map_eq_some_iff.1 h
        refine (ih hviews' hkept' hrest).1 ?_
        intro x hx hlt
        have hbehind : key last < key x := hlt _ rfl
        have hc : ∀ b ∈ c, b < key x := fun b hb =>
          (lt_of_mem_fresh hview hpos (List.mem_of_getLast? hlast) b hb).trans hbehind
        rcases List.mem_append.1 (hall x hx hc) with hmem | hmem
        · exact absurd (le_last_of_mem_fresh hview hlast hmem) hbehind.not_ge
        · exact hmem
    · intro hkeeps x hx hc
      rw [Keeps] at hkeeps
      obtain ⟨hpage, hrest⟩ := hkeeps
      have hnot : ¬∃ b ∈ c, (atLeast key c view).head? = some x := by
        rintro ⟨b, rfl, hhead⟩
        exact not_dropped hview hx (hc b rfl) hhead (hpage b rfl)
      rw [readViews] at h
      split at h
      case h_1 hend =>
        exact absurd (passed_end hsize (hhere x hx) hc (List.getLast?_eq_none_iff.1 hend)) hnot
      case h_2 last hlast =>
        obtain ⟨rest, hread, rfl⟩ := Option.map_eq_some_iff.1 h
        rcases le_or_gt (key x) (key last) with hle | hlt
        · have hfresh := (passed hview (hhere x hx) hc hlast hle).resolve_right hnot
          exact List.mem_append_left _ hfresh
        · refine List.mem_append_right _ ((ih hviews' hkept' hread).2 (hrest last hlast) x hx ?_)
          rintro b' hb'
          rw [← Option.some.inj hb']
          exact hlt

end AgentHub.Resume
