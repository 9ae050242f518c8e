import Mathlib.Data.List.Nodup

/-!
# The first of each key

Of a list, `firsts` keeps the items whose key is not that of an item before them, nor a key seen before
the list.  Where the key stands for a name, `names_iff` says when each name is kept once.
-/

namespace AgentHub

variable {α κ ν : Type*} [DecidableEq κ] (key : α → κ)

def firsts (seen : List κ) : List α → List α
  | [] => []
  | x :: xs => if key x ∈ seen then firsts seen xs else x :: firsts (seen ++ [key x]) xs

variable {key} {seen : List κ} {xs : List α}

theorem firsts_sublist : ∀ {seen : List κ}, (firsts key seen xs).Sublist xs := by
  induction xs with
  | nil => exact List.Sublist.refl _
  | cons x xs ih =>
    intro seen
    rw [firsts]
    split
    · exact ih.cons x
    · exact ih.cons_cons x

theorem notMem_of_mem_firsts : ∀ {seen : List κ} {x : α}, x ∈ firsts key seen xs → key x ∉ seen := by
  induction xs with
  | nil =>
    intro seen x hx
    cases hx
  | cons y ys ih =>
    intro seen x hx
    rw [firsts] at hx
    split at hx
    · exact ih hx
    · next hy =>
      rcases List.mem_cons.1 hx with rfl | hx
      · exact hy
      · exact fun hmem => ih hx (List.mem_append_left _ hmem)

theorem nodup_firsts : ∀ {seen : List κ}, ((firsts key seen xs).map key).Nodup := by
  induction xs with
  | nil => exact List.nodup_nil
  | cons y ys ih =>
    intro seen
    rw [firsts]
    split
    · exact ih
    · refine List.nodup_cons.2 ⟨fun hmem => ?_, ih⟩
      obtain ⟨x, hx, heq⟩ := List.mem_map.1 hmem
      exact notMem_of_mem_firsts hx (heq ▸ List.mem_append_right _ (List.mem_singleton_self _))

/-- A key that was not seen is that of an item that is kept. -/
theorem exists_mem_firsts : ∀ {seen : List κ} {x : α}, x ∈ xs → key x ∉ seen →
    ∃ y ∈ firsts key seen xs, key y = key x := by
  induction xs with
  | nil =>
    intro seen x hx
    cases hx
  | cons z zs ih =>
    intro seen x hx hnew
    rw [firsts]
    split
    · next hz =>
      rcases List.mem_cons.1 hx with rfl | hx
      · exact absurd hz hnew
      · exact ih hx hnew
    · by_cases heq : key x = key z
      · exact ⟨z, List.mem_cons_self, heq.symm⟩
      · have hx : x ∈ zs := (List.mem_cons.1 hx).resolve_left fun h => heq (congrArg key h)
        obtain ⟨y, hy, hkey⟩ := ih hx (show key x ∉ seen ++ [key z] by simp [hnew, heq])
        exact ⟨y, List.mem_cons_of_mem _ hy, hkey⟩

theorem firsts_append {front : List α} : ∀ {seen : List κ} (back : List α),
    firsts key seen (front ++ back) =
      firsts key seen front ++ firsts key (seen ++ (firsts key seen front).map key) back := by
  induction front with
  | nil =>
    intro seen back
    simp [firsts]
  | cons x front ih =>
    intro seen back
    rw [List.cons_append, firsts, firsts]
    split
    · exact ih back
    · rw [ih back, List.map_cons, List.append_assoc, List.singleton_append, List.cons_append]

/-- Items with new keys of their own are all kept. -/
theorem firsts_eq_self : ∀ {seen : List κ}, (xs.map key).Nodup → (∀ x ∈ xs, key x ∉ seen) →
    firsts key seen xs = xs := by
  induction xs with
  | nil =>
    intro seen _ _
    rfl
  | cons x xs ih =>
    intro seen hnodup hnew
    obtain ⟨hx, hxs⟩ := List.nodup_cons.1 hnodup
    have hrest : ∀ y ∈ xs, key y ∉ seen ++ [key x] := by
      intro y hy hmem
      rcases List.mem_append.1 hmem with hmem | hmem
      · exact hnew y (List.mem_cons_of_mem _ hy) hmem
      · exact hx (List.mem_singleton.1 hmem ▸ List.mem_map_of_mem hy)
    rw [firsts, if_neg (hnew x List.mem_cons_self), ih hxs hrest]

/-- Items of one key in a list that is kept are one. -/
theorem eq_of_mem_firsts {x y : α} (hx : x ∈ firsts key seen xs) (hy : y ∈ firsts key seen xs)
    (h : key x = key y) : x = y :=
  List.inj_on_of_nodup_map nodup_firsts hx hy h

variable (key) in
/-- **Each name is kept once** exactly when the names are told apart as the keys are, provided that
items of one key have one name or are the only ones of theirs. -/
theorem names_iff (name : α → ν)
    (hname : ∀ x ∈ xs, ∀ y ∈ xs, key x = key y →
      name x = name y ∨ ∀ z ∈ xs, name z = name x → z = x) :
    (((firsts key [] xs).map name).Nodup ∧ ∀ x ∈ xs, name x ∈ (firsts key [] xs).map name) ↔
      ∀ x ∈ xs, ∀ y ∈ xs, name x = name y ↔ key x = key y := by
  have hrep : ∀ x ∈ xs, ∃ r ∈ firsts key [] xs, key r = key x :=
    fun x hx => exists_mem_firsts hx List.not_mem_nil
  have hin : ∀ r ∈ firsts key [] xs, r ∈ xs := fun r hr => firsts_sublist.subset hr
  constructor
  · rintro ⟨hnodup, hcover⟩
    have hsame : ∀ x ∈ xs, ∀ y ∈ xs, key x = key y → name x = name y := by
      intro x hx y hy hkey
      rcases hname x hx y hy hkey with heq | hx_only
      · exact heq
      rcases hname y hy x hx hkey.symm with heq | hy_only
      · exact heq.symm
      -- both are kept, as no other item has their names
      obtain ⟨f, hf, hfx⟩ := List.mem_map.1 (hcover x hx)
      obtain ⟨g, hg, hgy⟩ := List.mem_map.1 (hcover y hy)
      have hfx' := hx_only f (hin f hf) hfx
      have hgy' := hy_only g (hin g hg) hgy
      subst hfx' hgy'
      rw [eq_of_mem_firsts hf hg hkey]
    intro x hx y hy
    refine ⟨fun heq => ?_, hsame x hx y hy⟩
    obtain ⟨r, hr, hrx⟩ := hrep x hx
    obtain ⟨s, hs, hsy⟩ := hrep y hy
    have hnames : name r = name s := by
      rw [hsame r (hin r hr) x hx hrx, hsame s (hin s hs) y hy hsy, heq]
    rw [← hrx, ← hsy, List.inj_on_of_nodup_map hnodup hr hs hnames]
  · intro h
    refine ⟨nodup_firsts.of_map.map_on fun x hx y hy heq => ?_, fun x hx => ?_⟩
    · exact eq_of_mem_firsts hx hy ((h x (hin x hx) y (hin y hy)).1 heq)
    · obtain ⟨r, hr, hrx⟩ := hrep x hx
      rw [← (h r (hin r hr) x hx).2 hrx]
      exact List.mem_map_of_mem hr

end AgentHub
