import AgentHub.Json.Equiv.Utf8
import AgentHub.Keys
import AgentHub.Outbox.Equiv.Request
import AgentHub.Subscriptions.Store
import Mathlib.Data.List.Nodup

/-!
# Whose subscriptions a listing and a cancellation reach

The key of a subscription joins the names of its agent and its own with a colon, and a listing reads
the agent back through a pattern.  In every reachable store:

* `listed_perm_iff`: a listing is right exactly when the scan repeats no key and the pattern of the
  agent matches the keys of its own subscriptions and of no other;
* `matches_plain_iff`: the pattern of a name without glob characters matches the keys of the agents
  that have the name, or have it followed by a colon;
* `keeps_others_iff`: a cancellation spares the other agents exactly when the id given is not that of
  another's subscription behind the rest of its name and a colon.
-/

namespace AgentHub.Subscriptions

open AgentHub.Validation AgentHub.Json AgentHub.Outbox AgentHub.Glob

/-! ### Reachable stores -/

/-- A record is under the key of its names, and its id has no colon. -/
structure Saved (row : Stored) : Prop where
  key_eq : row.key = subscriptionKey row.sub.agent row.sub.id
  id_plain : ':' ∉ row.sub.id.toList

/-- The text of a UUID has hexadecimal digits and hyphens. -/
theorem notMem_uuid {c : Char} (hhex : ∀ d : Fin 16, Uuid.hexChar d ≠ c) (hdash : c ≠ '-')
    (u : Uuid) : c ∉ u.toString.toList := by
  have hdigits : c ∉ u.nibbles.map Uuid.hexChar := by
    intro h
    obtain ⟨d, -, hd⟩ := List.mem_map.1 h
    exact hhex d hd
  have htake : ∀ m n, c ∉ ((u.nibbles.map Uuid.hexChar).drop m).take n :=
    fun m n h => hdigits (List.mem_of_mem_drop (List.mem_of_mem_take h))
  have hfirst : c ∉ (u.nibbles.map Uuid.hexChar).take 8 :=
    fun h => hdigits (List.mem_of_mem_take h)
  have hlast : ∀ m, c ∉ (u.nibbles.map Uuid.hexChar).drop m :=
    fun m h => hdigits (List.mem_of_mem_drop h)
  rw [Uuid.toString, String.toList_ofList, Uuid.toChars]
  simp only [List.mem_append, List.mem_cons, hfirst, htake, hlast, hdash, or_self,
    not_false_eq_true]

theorem colon_notMem_uuid (u : Uuid) : ':' ∉ u.toString.toList :=
  notMem_uuid (by decide) (by decide) u

theorem saved_subscribe {store : Store} (h : ∀ row ∈ store.rows, Saved row) (w : Surroundings)
    (request : SubscribeRequest) : ∀ row ∈ (subscribe store w request).2.rows, Saved row := by
  unfold subscribe
  cases hsub : newSubscription w request with
  | error e => exact h
  | ok sub =>
    -- the key is made of the agent and the new id
    have hid : sub.id = w.id.toString := by
      unfold newSubscription at hsub
      obtain ⟨agent, -, hsub⟩ := bind_eq_ok.1 hsub
      obtain ⟨-, -, hsub⟩ := bind_eq_ok.1 hsub
      obtain ⟨expiresAt, -, hsub⟩ := bind_eq_ok.1 hsub
      cases hsub
      rfl
    have hput : ∀ deadline, ∀ row ∈ (store.put ⟨subscriptionKey sub.agent sub.id, sub, deadline⟩).rows,
        Saved row := by
      intro deadline row hrow
      rcases Table.mem_put.1 hrow with ⟨hold, -⟩ | rfl
      · exact h row hold
      · exact ⟨rfl, hid ▸ colon_notMem_uuid w.id⟩
    simp only [saveSubscription]
    cases validateSubscriptionNulFields sub with
    | error e => exact h
    | ok u =>
      cases w.conn with
      | error e => exact h
      | ok u =>
        cases w.outcome with
        | done => exact hput _
        | refused e => exact h
        | lost e => exact hput _

/-- Deleting leaves some of the records. -/
theorem deleteSubscription_subset (store : Store) (now : Nat) (conn : Except AgentBusError Unit)
    (outcome : Outcome) (agent id : String) :
    (deleteSubscription store now conn outcome agent id).2.rows ⊆ store.rows := by
  have hdelete : ∀ key, (store.delete key).rows ⊆ store.rows :=
    fun key row hrow => (Table.mem_delete.1 hrow).1
  cases conn with
  | error e => exact List.Subset.refl _
  | ok u =>
    cases outcome with
    | done => exact hdelete _
    | refused e => exact List.Subset.refl _
    | lost e => exact hdelete _

theorem unsubscribe_subset (store : Store) (now : Nat) (conn : Except AgentBusError Unit)
    (outcome : Outcome) (agent id : String) :
    (unsubscribe store now conn outcome agent id).2.rows ⊆ store.rows := by
  unfold unsubscribe
  cases unsubscribeNames agent id with
  | error e => exact List.Subset.refl _
  | ok names => exact deleteSubscription_subset _ _ _ _ _ _

section Runs

seal subscribe unsubscribe

theorem saved_exec (is : List Call) : ∀ row ∈ (machine.exec .empty is).1.rows, Saved row := by
  refine machine.exec_induction (P := fun _ store _ => ∀ row ∈ store.rows, Saved row)
    (fun row hrow => ?_) (fun is store tr i h => ?_) is
  · cases hrow
  · cases i with
    | subscribe w request => exact saved_subscribe h w request
    | unsubscribe now conn outcome agent id =>
      exact fun row hrow => h row (unsubscribe_subset _ _ _ _ _ _ hrow)
    | expire now => exact fun row hrow => h row (List.mem_of_mem_filter hrow)

end Runs

/-! ### Listing -/

theorem getLive_eq_some {store : Store} {now : Nat} {key : String} {row : Stored} :
    getLive store now key = some row ↔ row ∈ store.rows ∧ row.key = key ∧ row.live now = true := by
  rw [getLive, Option.filter_eq_some_iff, Table.get?_eq_some, and_assoc]

/-- The rows a listing finds under the keys of a scan. -/
def foundRows (store : Store) (now : Nat) (keys : List String) : List Stored :=
  keys.filterMap (getLive store now)

/-- The subscriptions of an agent that have not expired. -/
def ownedRows (store : Store) (now : Nat) (agent : String) : List Stored :=
  store.rows.filter fun row => row.live now && row.sub.agent == agent

theorem getAll_ok {store : Store} {now : Nat} {getError : String → Option String}
    {keys : List String} : ∀ {subs : List Subscription},
    getAll store now getError keys = .ok subs → subs = (foundRows store now keys).map Stored.sub := by
  induction keys with
  | nil =>
    intro subs h
    cases h
    rfl
  | cons key keys ih =>
    intro subs h
    rw [getAll] at h
    split at h
    · cases h
    · obtain ⟨rest, hrest, h⟩ := bind_eq_ok.1 h
      cases h
      rw [ih hrest, foundRows, foundRows, List.filterMap_cons]
      cases getLive store now key <;> rfl

theorem listSubscriptions_ok {store : Store} {now : Nat} {conn : Except AgentBusError Unit}
    {answers : ListAnswers} {name agent : String} {keys : List String} {subs : List Subscription}
    (hname : nonEmpty name "agent" = .ok agent)
    (hkeys : answers.scan (subscriptionPattern agent) = .ok keys)
    (h : listSubscriptions store now conn answers name = .ok subs) :
    subs.Perm ((foundRows store now keys).map Stored.sub) := by
  obtain ⟨other, hother, h⟩ := bind_eq_ok.1 h
  obtain rfl : agent = other := by
    rw [hname] at hother
    exact Except.ok.inj hother
  obtain ⟨-, -, h⟩ := bind_eq_ok.1 h
  simp only [hkeys] at h
  obtain ⟨found, hfound, h⟩ := bind_eq_ok.1 h
  cases h
  rw [← getAll_ok hfound]
  exact List.mergeSort_perm _ _

/-- What a scan may return: keys of the pattern, some of them more than once, and every key that is
there. -/
structure ScanReturns (store : Store) (now : Nat) (pattern : List UInt8) (keys : List String) :
    Prop where
  sound : ∀ key ∈ keys, globMatch pattern (utf8 key.toList) = true
  complete : ∀ row ∈ store.rows, row.live now = true →
    globMatch pattern (utf8 row.key.toList) = true → row.key ∈ keys

/-- The scan repeats no key that is there, and the pattern tells the agent's keys from the others. -/
structure ReadsOwn (store : Store) (now : Nat) (agent : String) (keys : List String) : Prop where
  once : (keys.filter fun key => (getLive store now key).isSome).Nodup
  matches_own : ∀ row ∈ store.rows, row.live now = true →
    (globMatch (subscriptionPattern agent) (utf8 row.key.toList) = true ↔ row.sub.agent = agent)

variable {store : Store} {now : Nat} {agent : String} {keys : List String}

theorem key_injOn {a b : Stored} (ha : a ∈ store.rows) (hb : b ∈ store.rows) (h : a.key = b.key) :
    a = b := store.eq_of_key ha hb h

theorem sub_injOn (hsaved : ∀ row ∈ store.rows, Saved row) {a b : Stored} (ha : a ∈ store.rows)
    (hb : b ∈ store.rows) (h : a.sub = b.sub) : a = b := by
  apply store.eq_of_key ha hb
  rw [(hsaved a ha).key_eq, (hsaved b hb).key_eq, h]

theorem mem_foundRows {row : Stored} :
    row ∈ foundRows store now keys ↔ row ∈ store.rows ∧ row.live now = true ∧ row.key ∈ keys := by
  rw [foundRows, List.mem_filterMap]
  constructor
  · rintro ⟨key, hkey, hrow⟩
    obtain ⟨hmem, rfl, hlive⟩ := getLive_eq_some.1 hrow
    exact ⟨hmem, hlive, hkey⟩
  · rintro ⟨hmem, hlive, hkey⟩
    exact ⟨row.key, hkey, getLive_eq_some.2 ⟨hmem, rfl, hlive⟩⟩

theorem mem_ownedRows {row : Stored} :
    row ∈ ownedRows store now agent ↔
      row ∈ store.rows ∧ row.live now = true ∧ row.sub.agent = agent := by
  rw [ownedRows, List.mem_filter, Bool.and_eq_true, beq_iff_eq]

theorem map_key_foundRows :
    (foundRows store now keys).map Stored.key =
      keys.filter fun key => (getLive store now key).isSome := by
  induction keys with
  | nil => rfl
  | cons key keys ih =>
    rw [foundRows, List.filterMap_cons, List.filter_cons]
    cases hrow : getLive store now key with
    | none => exact ih
    | some row =>
      obtain ⟨-, hkey, -⟩ := getLive_eq_some.1 hrow
      rw [Option.isSome_some, if_pos rfl, List.map_cons, hkey]
      exact congrArg _ ih

theorem nodup_foundRows_iff :
    (foundRows store now keys).Nodup ↔
      (keys.filter fun key => (getLive store now key).isSome).Nodup := by
  rw [← map_key_foundRows]
  constructor
  · exact List.Nodup.map_on fun a ha b hb h =>
      key_injOn (mem_foundRows.1 ha).1 (mem_foundRows.1 hb).1 h
  · exact List.Nodup.of_map _

theorem nodup_ownedRows : (ownedRows store now agent).Nodup :=
  (store.unique.imp fun h => fun heq => h (congrArg Stored.key heq)).filter _

/-- The rows found are the agent's own exactly when the scan tells them apart. -/
theorem found_perm_iff (hsaved : ∀ row ∈ store.rows, Saved row)
    (hscan : ScanReturns store now (subscriptionPattern agent) keys) :
    ((foundRows store now keys).map Stored.sub).Perm
        ((ownedRows store now agent).map Stored.sub) ↔
      ReadsOwn store now agent keys := by
  have hmatch : ∀ row ∈ store.rows, row.live now = true → (row.key ∈ keys ↔
      globMatch (subscriptionPattern agent) (utf8 row.key.toList) = true) := by
    intro row hrow hlive
    exact ⟨hscan.sound row.key, hscan.complete row hrow hlive⟩
  -- no row is found twice
  constructor
  · intro hperm
    have hnodup : ((ownedRows store now agent).map Stored.sub).Nodup :=
      nodup_ownedRows.map_on fun a ha b hb h =>
        sub_injOn hsaved (mem_ownedRows.1 ha).1 (mem_ownedRows.1 hb).1 h
    refine ⟨nodup_foundRows_iff.1 (hperm.nodup_iff.2 hnodup).of_map, ?_⟩
    intro row hrow hlive
    rw [← hmatch row hrow hlive]
    constructor
    · intro hkey
      have hfound := List.mem_map_of_mem (mem_foundRows.2 ⟨hrow, hlive, hkey⟩) (f := Stored.sub)
      obtain ⟨other, hother, heq⟩ := List.mem_map.1 (hperm.subset hfound)
      rw [← heq]
      exact (mem_ownedRows.1 hother).2.2
    · -- a row of the agent is among those found
      intro hagent
      have howned := List.mem_map_of_mem (mem_ownedRows.2 ⟨hrow, hlive, hagent⟩) (f := Stored.sub)
      obtain ⟨other, hother, heq⟩ := List.mem_map.1 (hperm.symm.subset howned)
      obtain ⟨hmem, -, hkey⟩ := mem_foundRows.1 hother
      rwa [← sub_injOn hsaved hmem hrow heq]
  · intro h
    apply List.Perm.map
    rw [List.perm_ext_iff_of_nodup (nodup_foundRows_iff.2 h.once) nodup_ownedRows]
    intro row
    rw [mem_foundRows, mem_ownedRows]
    refine and_congr_right fun hrow => and_congr_right fun hlive => ?_
    rw [hmatch row hrow hlive, h.matches_own row hrow hlive]

theorem listed_perm_iff (hsaved : ∀ row ∈ store.rows, Saved row)
    (hscan : ScanReturns store now (subscriptionPattern agent) keys)
    {conn : Except AgentBusError Unit} {answers : ListAnswers} {name : String}
    {subs : List Subscription} (hname : nonEmpty name "agent" = .ok agent)
    (hkeys : answers.scan (subscriptionPattern agent) = .ok keys)
    (hsubs : listSubscriptions store now conn answers name = .ok subs) :
    subs.Perm ((ownedRows store now agent).map Stored.sub) ↔ ReadsOwn store now agent keys := by
  have hfound := listSubscriptions_ok hname hkeys hsubs
  rw [← found_perm_iff hsaved hscan]
  exact ⟨hfound.symm.trans, hfound.trans⟩

/-! ### Names without glob characters -/

def PlainName (name : String) : Prop := ∀ c ∈ name.toList, c ≠ '*' ∧ c ≠ '?' ∧ c ≠ '[' ∧ c ≠ '\\'

theorem plain_bytes {cs : List Char} (h : ∀ c ∈ cs, c ≠ '*' ∧ c ≠ '?' ∧ c ≠ '[' ∧ c ≠ '\\') :
    ∀ b ∈ utf8 cs, b ∉ specialBytes := by
  intro b hb hspecial
  have hmem : ∀ n < 128, b.toNat = n → ∃ c ∈ cs, c.toNat = n := by
    intro n hn hbn
    obtain ⟨c, hc, hcode⟩ := mem_of_mem_utf8 (hbn ▸ hn) hb
    exact ⟨c, hc, hcode.trans hbn⟩
  have hchar : ∀ {c d : Char}, c.toNat = d.toNat → c = d := fun h => Char.toNat_inj.1 h
  simp only [specialBytes, List.mem_cons, List.not_mem_nil, or_false] at hspecial
  rcases hspecial with rfl | rfl | rfl | rfl
  · obtain ⟨c, hc, hcode⟩ := hmem 42 (by omega) rfl
    exact (h c hc).1 (hchar hcode)
  · obtain ⟨c, hc, hcode⟩ := hmem 63 (by omega) rfl
    exact (h c hc).2.1 (hchar hcode)
  · obtain ⟨c, hc, hcode⟩ := hmem 91 (by omega) rfl
    exact (h c hc).2.2.1 (hchar hcode)
  · obtain ⟨c, hc, hcode⟩ := hmem 92 (by omega) rfl
    exact (h c hc).2.2.2 (hchar hcode)

/-- The keys behind the text of a name and a colon. -/
theorem key_prefix_iff {row : Stored} (hsaved : Saved row) :
    (subscriptionKeyPrefix ++ agent ++ ":").toList <+: row.key.toList ↔
      row.sub.agent = agent ∨ ∃ rest, row.sub.agent = agent ++ ":" ++ rest := by
  have hjoined : (subscriptionKeyPrefix ++ agent ++ ":").toList <+: row.key.toList ↔
      ∃ t, row.sub.agent ++ ":" ++ row.sub.id = agent ++ ":" ++ t := by
    rw [hsaved.key_eq, subscriptionKey]
    simp only [String.toList_append, List.append_assoc, List.prefix_append_right_inj]
    constructor
    · rintro ⟨t, ht⟩
      refine ⟨String.ofList t, String.toList_injective ?_⟩
      simpa using ht.symm
    · rintro ⟨t, ht⟩
      have hchars := congrArg String.toList ht
      exact ⟨t.toList, by simpa using hchars.symm⟩
  rw [hjoined]
  constructor
  · -- the id has no colon, so it cannot be the part that was split
    rintro ⟨t, ht⟩
    rcases Keys.joined_eq_iff.1 ht with ⟨hagent, -⟩ | ⟨middle, -, hid⟩ | ⟨middle, hagent, -⟩
    · exact .inl hagent
    · refine absurd ?_ hsaved.id_plain
      rw [hid]
      simp
    · exact .inr ⟨middle, hagent⟩
  · rintro (hagent | ⟨rest, hagent⟩)
    · exact ⟨row.sub.id, by rw [hagent]⟩
    · exact ⟨rest ++ ":" ++ row.sub.id, by rw [hagent]; simp only [String.append_assoc]⟩

theorem matches_plain_iff (hplain : PlainName agent) {row : Stored} (hsaved : Saved row) :
    globMatch (subscriptionPattern agent) (utf8 row.key.toList) = true ↔
      row.sub.agent = agent ∨ ∃ rest, row.sub.agent = agent ++ ":" ++ rest := by
  have hpattern : subscriptionPattern agent =
      utf8 (subscriptionKeyPrefix ++ agent ++ ":").toList ++ [42] := by
    have hstar : [42] = utf8 ['*'] := by decide
    rw [subscriptionPattern, hstar, ← utf8_append]
    simp only [String.toList_append, List.append_assoc]
    rfl
  -- the fixed parts of the pattern
  have hprefix : subscriptionKeyPrefix.toList.all
      (fun c => decide (c ≠ '*' ∧ c ≠ '?' ∧ c ≠ '[' ∧ c ≠ '\\')) = true := by decide
  have hcolon : ":".toList.all
      (fun c => decide (c ≠ '*' ∧ c ≠ '?' ∧ c ≠ '[' ∧ c ≠ '\\')) = true := by decide
  have hchars : ∀ c ∈ (subscriptionKeyPrefix ++ agent ++ ":").toList,
      c ≠ '*' ∧ c ≠ '?' ∧ c ≠ '[' ∧ c ≠ '\\' := by
    intro c hc
    simp only [String.toList_append, List.mem_append] at hc
    rcases hc with (hc | hc) | hc
    · exact of_decide_eq_true (List.all_eq_true.1 hprefix c hc)
    · exact hplain c hc
    · exact of_decide_eq_true (List.all_eq_true.1 hcolon c hc)
  rw [hpattern, globMatch_literal (plain_bytes hchars), utf8_prefix_iff, key_prefix_iff hsaved]

/-! ### Cancelling -/

/-- The deletion reaches the server. -/
def performed : Except AgentBusError Unit → Outcome → Bool
  | .ok (), .done => true
  | .ok (), .lost _ => true
  | _, _ => false

theorem rows_unsubscribe {conn : Except AgentBusError Unit} {outcome : Outcome}
    {name subscriptionId id : String}
    (hnames : unsubscribeNames name subscriptionId = .ok (agent, id)) {row : Stored} :
    row ∈ (unsubscribe store now conn outcome name subscriptionId).2.rows ↔
      row ∈ store.rows ∧ ¬(performed conn outcome = true ∧ row.key = subscriptionKey agent id) := by
  simp only [unsubscribe, hnames, deleteSubscription]
  cases conn with
  | error e => simp [performed]
  | ok u => cases outcome <;> simp [performed, Table.mem_delete]

/-- Another agent's subscription is under the key of the names given exactly when the id is its own
behind the rest of its agent's name. -/
theorem key_eq_other_iff {row : Stored} (hsaved : Saved row) {id : String} :
    row.key = subscriptionKey agent id ∧ row.sub.agent ≠ agent ↔
      Keys.Shift agent id row.sub.agent row.sub.id := by
  have hjoined : row.key = subscriptionKey agent id ↔
      agent ++ ":" ++ id = row.sub.agent ++ ":" ++ row.sub.id := by
    rw [hsaved.key_eq, subscriptionKey, subscriptionKey]
    simp only [String.append_assoc, String.append_right_inj]
    exact eq_comm
  rw [hjoined]
  constructor
  · rintro ⟨hkey, hne⟩
    rcases Keys.joined_eq_iff.1 hkey with ⟨hagent, -⟩ | hshift | ⟨middle, -, hid⟩
    · exact absurd hagent.symm hne
    · exact hshift
    · refine absurd ?_ hsaved.id_plain
      rw [hid]
      simp
  · intro hshift
    refine ⟨Keys.joined_eq_iff.2 (.inr (.inl hshift)), ?_⟩
    obtain ⟨middle, hagent, -⟩ := hshift
    intro heq
    have hlength := congrArg (fun s : String => s.toList.length) (heq.symm.trans hagent)
    simp at hlength

theorem keeps_others_iff (hsaved : ∀ row ∈ store.rows, Saved row)
    {conn : Except AgentBusError Unit} {outcome : Outcome} {name subscriptionId id : String}
    (hnames : unsubscribeNames name subscriptionId = .ok (agent, id)) :
    (∀ row ∈ store.rows, row.live now = true → row.sub.agent ≠ agent →
        row ∈ (unsubscribe store now conn outcome name subscriptionId).2.rows) ↔
      (performed conn outcome = true → ∀ row ∈ store.rows, row.live now = true →
        ¬Keys.Shift agent id row.sub.agent row.sub.id) := by
  constructor
  · intro h hperformed row hrow hlive hshift
    obtain ⟨hkey, hne⟩ := (key_eq_other_iff (hsaved row hrow)).2 hshift
    exact ((rows_unsubscribe hnames).1 (h row hrow hlive hne)).2 ⟨hperformed, hkey⟩
  · intro h row hrow hlive hne
    refine (rows_unsubscribe hnames).2 ⟨hrow, fun ⟨hperformed, hkey⟩ => ?_⟩
    exact h hperformed row hrow hlive ((key_eq_other_iff (hsaved row hrow)).1 ⟨hkey, hne⟩)

/-! ### Every reachable store -/

/-- **Subscriptions and their agents.**  In every store the agents' calls lead to, a listing for a name
gives each of its subscriptions that has not expired once, and no other, exactly when the scan repeats
none of them and the pattern of the name matches the keys of the name's own subscriptions alone; for a
name without glob characters those it matches are the ones of the agents that have the name, or have
it followed by a colon.  A cancellation spares the other agents' subscriptions exactly when it does not
reach the server or the id it is given is not another's behind the rest of its agent's name. -/
theorem subscriptions_belong_iff (is : List Call) {name agent : String}
    (hname : nonEmpty name "agent" = .ok agent) :
    (∀ now conn answers keys subs, answers.scan (subscriptionPattern agent) = .ok keys →
      ScanReturns (machine.exec .empty is).1 now (subscriptionPattern agent) keys →
      listSubscriptions (machine.exec .empty is).1 now conn answers name = .ok subs →
      (subs.Perm ((ownedRows (machine.exec .empty is).1 now agent).map Stored.sub) ↔
        ReadsOwn (machine.exec .empty is).1 now agent keys)) ∧
    (PlainName agent → ∀ row ∈ (machine.exec .empty is).1.rows,
      (globMatch (subscriptionPattern agent) (utf8 row.key.toList) = true ↔
        row.sub.agent = agent ∨ ∃ rest, row.sub.agent = agent ++ ":" ++ rest)) ∧
    ∀ now conn outcome subscriptionId id, nonEmpty subscriptionId "subscription_id" = .ok id →
      ((∀ row ∈ (machine.exec .empty is).1.rows, row.live now = true → row.sub.agent ≠ agent →
          row ∈ (unsubscribe (machine.exec .empty is).1 now conn outcome name subscriptionId).2.rows) ↔
        (performed conn outcome = true → ∀ row ∈ (machine.exec .empty is).1.rows,
          row.live now = true → ¬Keys.Shift agent id row.sub.agent row.sub.id)) := by
  have hsaved := saved_exec is
  refine ⟨?_, ?_, ?_⟩
  · intro now conn answers keys subs hkeys hscan hsubs
    exact listed_perm_iff hsaved hscan hname hkeys hsubs
  · intro hplain row hrow
    exact matches_plain_iff hplain (hsaved row hrow)
  · intro now conn outcome subscriptionId id hid
    have hnames : unsubscribeNames name subscriptionId = .ok (agent, id) :=
      bind_eq_ok.2 ⟨agent, hname, bind_eq_ok.2 ⟨id, hid, rfl⟩⟩
    exact keeps_others_iff hsaved hnames

/-! An agent whose name is another's with a colon and more behind it. -/

def sampleId : Uuid := Uuid.ofNat 0

def sampleSurroundings : Surroundings where
  id := sampleId
  createdAt := "2026-07-30T00:00:00+00:00"
  expiry := fun _ => .ok "2026-07-30T01:00:00+00:00"
  now := 0
  conn := .ok ()
  outcome := .done

/-- The subscription of `a:b` alone. -/
def sampleStore : Store := (machine.exec .empty [.subscribe sampleSurroundings ⟨"a:b", {}, none⟩]).1

def sampleKey : String := "agent_bus:sub:a:b:00000000-0000-0000-0000-000000000000"

def pairCalls : List Call :=
  [.subscribe sampleSurroundings ⟨"alice", {}, none⟩,
   .subscribe { sampleSurroundings with id := Uuid.ofNat 1 } ⟨"bob", {}, none⟩]

/-- The subscriptions of two agents. -/
def pairStore : Store := (machine.exec .empty pairCalls).1

def aliceKey : String := "agent_bus:sub:alice:00000000-0000-0000-0000-000000000000"

def aliceAnswers : ListAnswers := ⟨fun _ => .ok [aliceKey], fun _ => none⟩

def aliceRow : Stored where
  key := aliceKey
  sub :=
    { id := "00000000-0000-0000-0000-000000000000"
      agent := "alice"
      scopes := {}
      createdAt := "2026-07-30T00:00:00+00:00"
      ttlSeconds := none
      expiresAt := none }
  deadline := none

def bobRow : Stored where
  key := "agent_bus:sub:bob:00000000-0000-0000-0000-000000000001"
  sub := { aliceRow.sub with id := "00000000-0000-0000-0000-000000000001", agent := "bob" }
  deadline := none

theorem pairStore_rows : pairStore.rows = [aliceRow, bobRow] := by decide +kernel

theorem scanReturns_pair :
    ScanReturns pairStore 1 (subscriptionPattern "alice") [aliceKey] where
  sound := by decide +kernel
  complete := by
    rw [pairStore_rows]
    decide +kernel

theorem readsOwn_pair : ReadsOwn pairStore 1 "alice" [aliceKey] where
  once := List.Nodup.sublist List.filter_sublist (List.nodup_singleton _)
  matches_own := by
    rw [pairStore_rows]
    decide +kernel

/-- Alice is shown her own subscription, and what she cancels is not bob's. -/
theorem subscriptions_belong_iff_pair :
    (∀ subs, listSubscriptions pairStore 1 (.ok ()) aliceAnswers "alice" = .ok subs →
      subs.Perm ((ownedRows pairStore 1 "alice").map Stored.sub)) ∧
    (∀ row ∈ pairStore.rows, row.live 1 = true → row.sub.agent ≠ "alice" →
      row ∈ (unsubscribe pairStore 1 (.ok ()) .done "alice" sampleId.toString).2.rows) ∧
    (listSubscriptions pairStore 1 (.ok ()) aliceAnswers "alice").toOption.map
        (List.map Subscription.agent) = some ["alice"] := by
  obtain ⟨hlists, -, hcancels⟩ :=
    @subscriptions_belong_iff pairCalls "alice" "alice" (by decide)
  refine ⟨?_, ?_, by decide +kernel⟩
  · intro subs hsubs
    exact (hlists 1 (.ok ()) aliceAnswers [aliceKey] subs rfl scanReturns_pair hsubs).mpr
      readsOwn_pair
  · refine (hcancels 1 (.ok ()) .done sampleId.toString sampleId.toString (by decide)).mpr ?_
    -- nobody's name begins with alice's and a colon
    rintro - row hrow - hshift
    have hplain : ∀ row ∈ pairStore.rows, ':' ∉ row.sub.agent.toList := by
      rw [pairStore_rows]
      decide +kernel
    exact hplain row hrow hshift.colon

/-- The agent `a` is shown the subscription of `a:b`, and can cancel it. -/
theorem colon_in_agent :
    ((listSubscriptions sampleStore 1 (.ok ()) ⟨fun _ => .ok [sampleKey], fun _ => none⟩ "a").toOption.map
        (List.map Subscription.agent)) = some ["a:b"] ∧
      (globMatch (subscriptionPattern "a") (utf8 sampleKey.toList) = true ∧
        sampleStore.rows.map Stored.key = [sampleKey]) ∧
      (unsubscribe sampleStore 1 (.ok ()) .done "a"
        "b:00000000-0000-0000-0000-000000000000").1.toOption = some true := by
  refine ⟨?_, ?_, ?_⟩
  · decide +kernel
  · refine ⟨?_, ?_⟩
    · decide
    · decide
  · decide

end AgentHub.Subscriptions
