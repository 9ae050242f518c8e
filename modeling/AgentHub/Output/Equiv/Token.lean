import AgentHub.Budget
import AgentHub.Output.Token

/-!
# What a compacted context holds

The loop of `compactContext` spends its budget from the newest message on, and its first message is
taken at any price.  So it keeps the longest suffix within the budget, or the newest message alone
where that is too dear (`compactContext_longest`).
-/

namespace AgentHub.Output

open AgentHub.Json AgentHub.Hub AgentHub.Budget

/-! ### Costs -/

theorem estimateTokens_pos {text : String} (h : text ≠ "") : 0 < estimateTokens text := by
  have hlength : 0 < text.toList.length := by
    rw [List.length_pos_iff]
    intro hnil
    exact h (String.toList_eq_nil_iff.1 hnil)
  unfold estimateTokens
  rw [if_neg h]
  dsimp only
  split
  · exact Nat.div_pos (by omega) (by decide)
  · exact Nat.div_pos (by omega) (by decide)

/-- Every message costs something, since its text has a pair of braces at least. -/
theorem messageCost_pos (msg : Message) : 0 < messageCost msg := by
  refine estimateTokens_pos fun hempty => ?_
  have hchars := congrArg String.toList hempty
  simp [jsonText, minimizeMessage, Json.print] at hchars

/-! ### The loop -/

/-- After the first message the loop takes what it can afford. -/
theorem collectIndices_of_ne_nil {entries : List (Message × Nat)} {budget : Nat}
    {indices : List Nat} (h : indices ≠ []) :
    collectIndices entries budget indices =
      indices ++ (takeAffordable (fun e => messageCost e.1) budget entries).map Prod.snd := by
  induction entries generalizing budget indices with
  | nil => simp [collectIndices, takeAffordable]
  | cons entry entries ih =>
    obtain ⟨msg, i⟩ := entry
    rw [collectIndices, takeAffordable]
    by_cases hcost : messageCost msg ≤ budget
    · rw [if_pos (.inr hcost), if_pos hcost, ih (by simp), List.map_cons, List.append_assoc,
        List.singleton_append]
    · rw [if_neg (not_or.2 ⟨h, hcost⟩), if_neg hcost, List.map_nil, List.append_nil]

/-- The entries whose indices the loop collects. -/
def taken (entries : List (Message × Nat)) (budget : Nat) : List (Message × Nat) :=
  match entries with
  | [] => []
  | entry :: rest =>
    entry :: takeAffordable (fun e => messageCost e.1) (budget - messageCost entry.1) rest

theorem collectIndices_nil (entries : List (Message × Nat)) (budget : Nat) :
    collectIndices entries budget [] = (taken entries budget).map Prod.snd := by
  cases entries with
  | nil => rfl
  | cons entry rest =>
    rw [collectIndices, if_pos (.inl rfl), collectIndices_of_ne_nil (by simp)]
    rfl

theorem taken_front (entries : List (Message × Nat)) (budget : Nat) :
    taken entries budget <+: entries := by
  cases entries with
  | nil => exact List.prefix_rfl
  | cons entry rest => exact List.cons_prefix_cons.2 ⟨rfl, takeAffordable_front⟩

/-- A first message within the budget is taken like the others. -/
theorem taken_of_affordable {entries : List (Message × Nat)} {budget : Nat}
    (h : ∀ entry ∈ entries.head?, messageCost entry.1 ≤ budget) :
    taken entries budget = takeAffordable (fun e => messageCost e.1) budget entries := by
  cases entries with
  | nil => rfl
  | cons entry rest => rw [takeAffordable, if_pos (h entry rfl), taken]

/-- A first message above the budget leaves nothing for another. -/
theorem taken_of_dear {entry : Message × Nat} {rest : List (Message × Nat)} {budget : Nat}
    (h : budget < messageCost entry.1) : taken (entry :: rest) budget = [entry] := by
  have hspent : budget - messageCost entry.1 = 0 := by omega
  rw [taken, hspent]
  cases rest with
  | nil => rfl
  | cons next rest => rw [takeAffordable, if_neg (messageCost_pos next.1).not_ge]

/-! ### Suffixes -/

/-- Entries of a list are looked up where they stand. -/
theorem filterMap_zipIdx {messages : List Message} {entries : List (Message × Nat)}
    (h : ∀ entry ∈ entries, entry ∈ messages.zipIdx) :
    (entries.map Prod.snd).filterMap (fun i => messages[i]?.map minimizeMessage) =
      (entries.map Prod.fst).map minimizeMessage := by
  rw [List.filterMap_map, List.map_map, ← List.filterMap_eq_map]
  refine List.filterMap_congr fun entry hentry => ?_
  have hget := List.mem_zipIdx_iff_getElem?.1 (h entry hentry)
  simp [hget]

/-- The messages a compacted context keeps. -/
def kept (messages : List Message) (maxTokens : Nat) : List Message :=
  ((taken messages.zipIdx.reverse maxTokens).map Prod.fst).reverse

theorem compactContext_eq (messages : List Message) (maxTokens : Nat) :
    compactContext messages maxTokens = (kept messages maxTokens).map minimizeMessage := by
  unfold compactContext kept
  dsimp only
  rw [collectIndices_nil, ← List.map_reverse, filterMap_zipIdx, List.map_reverse]
  intro entry hentry
  have hmem := (taken_front _ _).subset (List.mem_reverse.1 hentry)
  exact List.mem_reverse.1 hmem

theorem kept_suffix (messages : List Message) (maxTokens : Nat) :
    kept messages maxTokens <:+ messages := by
  have hfront := (taken_front messages.zipIdx.reverse maxTokens).map Prod.fst
  rw [List.map_reverse, List.zipIdx_map_fst] at hfront
  unfold kept
  rwa [← List.reverse_prefix, List.reverse_reverse]

/-- What entries cost is what their messages cost. -/
theorem total_map_fst (entries : List (Message × Nat)) :
    total messageCost (entries.map Prod.fst) = total (fun e => messageCost e.1) entries := by
  rw [total, List.map_map]
  rfl

theorem head?_entries (messages : List Message) :
    messages.zipIdx.reverse.head?.map Prod.fst = messages.getLast? := by
  rw [← List.head?_map, List.map_reverse, List.zipIdx_map_fst, List.head?_reverse]

/-- **The newest message alone** is kept where it costs more than the budget. -/
theorem kept_of_dear {messages : List Message} {maxTokens : Nat} {newest : Message}
    (hnewest : messages.getLast? = some newest) (hdear : maxTokens < messageCost newest) :
    kept messages maxTokens = [newest] := by
  have hhead := head?_entries messages
  unfold kept
  cases hentries : messages.zipIdx.reverse with
  | nil =>
    rw [hentries, hnewest] at hhead
    cases hhead
  | cons entry rest =>
    rw [hentries, hnewest] at hhead
    obtain rfl : entry.1 = newest := Option.some.inj hhead
    rw [taken_of_dear hdear]
    rfl

/-- **The longest affordable suffix** is kept where the newest message can be paid for. -/
theorem kept_of_affordable {messages : List Message} {maxTokens : Nat}
    (h : ∀ newest ∈ messages.getLast?, messageCost newest ≤ maxTokens) :
    total messageCost (kept messages maxTokens) ≤ maxTokens ∧
      ∀ s, s <:+ messages → total messageCost s ≤ maxTokens →
        s.length ≤ (kept messages maxTokens).length := by
  have htaken : taken messages.zipIdx.reverse maxTokens =
      takeAffordable (fun e => messageCost e.1) maxTokens messages.zipIdx.reverse := by
    refine taken_of_affordable fun entry hentry => h entry.1 ?_
    rw [← head?_entries]
    exact Option.mem_map_of_mem Prod.fst hentry
  unfold kept
  rw [htaken, List.length_reverse, List.length_map]
  constructor
  · rw [total_reverse, total_map_fst]
    exact total_takeAffordable_le
  · intro s hs hcost
    -- The suffix is the messages of a front part of the entries.
    have hfront : s.reverse <+: messages.zipIdx.reverse.map Prod.fst := by
      rw [List.map_reverse, List.zipIdx_map_fst]
      exact List.reverse_prefix.2 hs
    obtain ⟨front, hfront, hmap⟩ := List.prefix_map_iff.1 hfront
    have haffordable : total (fun e => messageCost e.1) front ≤ maxTokens := by
      rw [← total_map_fst, ← hmap, total_reverse]
      exact hcost
    have hlength := length_le_takeAffordable hfront haffordable
    have hsame := congrArg List.length hmap
    rw [List.length_reverse, List.length_map] at hsame
    rwa [hsame]

/-- **A compacted context** is the minimised forms of a suffix: the longest one within the budget,
or the newest message where that alone costs more. -/
theorem compactContext_longest (messages : List Message) (maxTokens : Nat) :
    ∃ suffix, suffix <:+ messages ∧
      compactContext messages maxTokens = suffix.map minimizeMessage ∧
      (∀ newest, messages.getLast? = some newest → maxTokens < messageCost newest →
        suffix = [newest]) ∧
      ((∀ newest, messages.getLast? = some newest → messageCost newest ≤ maxTokens) →
        total messageCost suffix ≤ maxTokens ∧
        ∀ s, s <:+ messages → total messageCost s ≤ maxTokens → s.length ≤ suffix.length) :=
  ⟨kept messages maxTokens, kept_suffix messages maxTokens, compactContext_eq messages maxTokens,
    fun _ hnewest hdear => kept_of_dear hnewest hdear,
    fun haffordable => kept_of_affordable fun newest hnewest => haffordable newest hnewest⟩

end AgentHub.Output
