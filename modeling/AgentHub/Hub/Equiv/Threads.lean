import AgentHub.Hub.Threads
import AgentHub.Json.Equiv.RoundTrip

/-!
# Updates of a thread

`threads_serializable`: as long as every `SET` on a thread finds the record its call has read, the
record is what the calls that returned `Ok` make of it one after the other, in the order of their
`SET`s.  `joins_lost`: two joins that both read before either writes leave one of them out.
-/

namespace AgentHub.Hub

open AgentHub.Json

variable {reader : ThreadReader}

/-! ### One call -/

theorem load_text (reader : ThreadReader) (thread : Option Thread) :
    reader.load (thread.map Thread.text) = existing thread := by
  cases thread with
  | none => rfl
  | some t => simp only [Option.map_some, ThreadReader.load, reader.fromStr_text, existing]

theorem text_injective (reader : ThreadReader) {t u : Thread} (h : t.text = u.text) : t = u := by
  have hread := reader.fromStr_text u
  rw [← h, reader.fromStr_text] at hread
  exact Option.some.inj hread

/-- On the text of a thread the code does what the call is to do. -/
theorem edit_text (reader : ThreadReader) (thread : Option Thread) (call : ThreadCall) :
    call.edit reader (thread.map Thread.text) = call.apply thread := by
  cases call with
  | create new => cases thread <;> rfl
  | join threadId agent => rw [ThreadCall.edit, ThreadCall.apply, load_text]
  | leave threadId agent => rw [ThreadCall.edit, ThreadCall.apply, load_text]
  | close threadId => rw [ThreadCall.edit, ThreadCall.apply, load_text]

theorem serialRun_snoc {thread after : Option Thread} {calls : List ThreadCall}
    (h : serialRun thread calls = .ok after) (call : ThreadCall) :
    serialRun thread (calls ++ [call]) = (call.apply after).map some := by
  rw [serialRun] at h ⊢
  rw [List.foldlM_append, h]
  show (call.apply after).map some >>= pure = _
  exact bind_pure _

/-! ### The invariant -/

/-- The calls under way have edited what they have read, and the record of the thread is what the
calls that have returned make of it. -/
structure ThreadInv (reader : ThreadReader) (threads : String → Option Thread) (threadId : String)
    (bus : ThreadBus) (answers : List ThreadAnswer) : Prop where
  edited : ∀ client p, bus.pending client = some p → p.call.edit reader p.read = .ok p.thread
  serial : ∃ thread, serialRun (threads threadId) (okCalls threadId answers) = .ok thread ∧
    bus.stored threadId = thread.map Thread.text

/-- In the run every `SET` on the thread finds what its call's `GET` has read. -/
def SetsFresh (reader : ThreadReader) (threadId : String) (bus : ThreadBus)
    (inputs : List ThreadInput) : Prop :=
  ∀ pre client post p, inputs = pre ++ .set client true :: post →
    ((threadBus reader).exec bus pre).1.pending client = some p → p.call.threadId = threadId →
    ((threadBus reader).exec bus pre).1.stored threadId = p.read

theorem SetsFresh.init {threadId : String} {bus : ThreadBus} {inputs : List ThreadInput}
    {i : ThreadInput} (h : SetsFresh reader threadId bus (inputs ++ [i])) :
    SetsFresh reader threadId bus inputs := by
  intro pre client post p hinputs
  apply h pre client (post ++ [i]) p
  rw [hinputs, List.append_assoc, List.cons_append]

section Steps

variable {threads : String → Option Thread} {threadId : String} {bus : ThreadBus}
  {answers : List ThreadAnswer}

theorem okCalls_append (answers answers' : List ThreadAnswer) :
    okCalls threadId (answers ++ answers') = okCalls threadId answers ++ okCalls threadId answers' :=
  List.filterMap_append

theorem okCalls_error (client : Nat) (call : ThreadCall) (e : ThreadError) :
    okCalls threadId [⟨client, call, .error e⟩] = [] := rfl

theorem okCalls_ok (client : Nat) (call : ThreadCall) (thread : Thread) :
    okCalls threadId [⟨client, call, .ok thread⟩] =
      if call.threadId = threadId then [call] else [] := by
  rw [okCalls, List.filterMap_cons]
  split_ifs <;> rfl

/-- An error is answered and nothing is written. -/
theorem ThreadInv.fail (h : ThreadInv reader threads threadId bus answers) (client : Nat)
    (call : ThreadCall) (e : ThreadError) :
    ThreadInv reader threads threadId bus (answers ++ [⟨client, call, .error e⟩]) where
  edited := h.edited
  serial := by
    rw [okCalls_append, okCalls_error, List.append_nil]
    exact h.serial

theorem ThreadInv.begin (h : ThreadInv reader threads threadId bus answers) (client : Nat)
    {p : PendingSet} (hedit : p.call.edit reader p.read = .ok p.thread) :
    ThreadInv reader threads threadId
      { bus with pending := Function.update bus.pending client (some p) } answers where
  edited := by
    intro other q hq
    by_cases hother : other = client
    · have hp : p = q := by simpa [hother] using hq
      rwa [← hp]
    · exact h.edited other q (by simpa [hother] using hq)
  serial := h.serial

theorem ThreadInv.drop (h : ThreadInv reader threads threadId bus answers) (client : Nat) :
    ThreadInv reader threads threadId
      { bus with pending := Function.update bus.pending client none } answers where
  edited := by
    intro other q hq
    by_cases hother : other = client
    · simp [hother] at hq
    · exact h.edited other q (by simpa [hother] using hq)
  serial := h.serial

theorem ThreadInv.got (h : ThreadInv reader threads threadId bus answers) (client : Nat)
    (call : ThreadCall) :
    ThreadInv reader threads threadId (bus.got reader client call).1
      (answers ++ (bus.got reader client call).2) := by
  rw [ThreadBus.got]
  cases hedit : call.edit reader (bus.stored call.threadId) with
  | error e => exact h.fail client call e
  | ok thread =>
    show ThreadInv reader threads threadId { bus with pending := _ } (answers ++ [])
    rw [List.append_nil]
    exact h.begin client hedit

/-- **A `SET` that finds what its call has read is the next call of the serial run.** -/
theorem ThreadInv.written (h : ThreadInv reader threads threadId bus answers) {client : Nat}
    {p : PendingSet} (hp : bus.pending client = some p)
    (hfresh : p.call.threadId = threadId → bus.stored threadId = p.read) :
    ThreadInv reader threads threadId (bus.written client p).1
      (answers ++ (bus.written client p).2) := by
  obtain ⟨thread, hrun, hstored⟩ := h.serial
  have hedit := h.edited client p hp
  refine ⟨(h.drop client).edited, ?_⟩
  simp only [ThreadBus.written, okCalls_append, okCalls_ok]
  by_cases hid : p.call.threadId = threadId
  · rw [if_pos hid, hid, Function.update_self]
    refine ⟨some p.thread, ?_, rfl⟩
    have happly : p.call.apply thread = .ok p.thread := by
      rw [← edit_text reader, ← hstored, hfresh hid]
      exact hedit
    rw [serialRun_snoc hrun, happly]
    rfl
  · rw [if_neg hid, List.append_nil, Function.update_of_ne (Ne.symm hid)]
    exact ⟨thread, hrun, hstored⟩

theorem ThreadInv.step (h : ThreadInv reader threads threadId bus answers) (i : ThreadInput)
    (hfresh : ∀ client p, i = .set client true → bus.pending client = some p →
      p.call.threadId = threadId → bus.stored threadId = p.read) :
    ThreadInv reader threads threadId ((threadBus reader).step bus i).1
      (answers ++ ((threadBus reader).step bus i).2) := by
  cases i with
  | get client call ok =>
    -- a client has one call at a time
    cases hpending : bus.pending client with
    | some p =>
      simp only [threadBus, ThreadBus.step, hpending, List.append_nil]
      exact h
    | none =>
      simp only [threadBus, ThreadBus.step, hpending]
      -- the read is held until the write
      cases ok with
      | true => exact h.got client call
      | false => exact h.fail client call .getFailed
  | set client ok =>
    cases hpending : bus.pending client with
    | none =>
      simp only [threadBus, ThreadBus.step, hpending, List.append_nil]
      exact h
    | some p =>
      simp only [threadBus, ThreadBus.step, hpending]
      cases ok with
      -- the write meets what was read
      | true => exact h.written hpending (hfresh client p rfl hpending)
      | false => exact (h.drop client).fail client p.call .setFailed

end Steps

/-! ### Runs -/

theorem threadInv_exec {threads : String → Option Thread} {threadId : String}
    (inputs : List ThreadInput) (hfresh : SetsFresh reader threadId (.holding threads) inputs) :
    ThreadInv reader threads threadId ((threadBus reader).exec (.holding threads) inputs).1
      ((threadBus reader).exec (.holding threads) inputs).2 := by
  induction inputs using List.reverseRecOn with
  | nil =>
    refine ⟨?_, threads threadId, rfl, rfl⟩
    -- no call is under way yet
    intro client p hp
    cases hp
  | append_singleton inputs i ih =>
    rw [Machine.exec_snoc]
    apply (ih hfresh.init).step
    intro client p hi
    subst hi
    exact hfresh inputs client [] p rfl

/-- **No update of a thread is lost while every `SET` finds what its call has read.** -/
theorem threads_serializable (reader : ThreadReader) (threads : String → Option Thread)
    (threadId : String) (inputs : List ThreadInput)
    (hfresh : SetsFresh reader threadId (.holding threads) inputs) :
    let run := (threadBus reader).exec (.holding threads) inputs
    ∃ order thread, order.Perm (okCalls threadId run.2) ∧
      serialRun (threads threadId) order = .ok thread ∧
      run.1.stored threadId = thread.map Thread.text := by
  intro run
  obtain ⟨thread, hrun, hstored⟩ := (threadInv_exec inputs hfresh).serial
  exact ⟨_, thread, List.Perm.refl _, hrun, hstored⟩

/-! ### A reader -/

def ThreadStatus.ofStr : String → Option ThreadStatus
  | "open" => some .opened
  | "closed" => some .closed
  | "archived" => some .archived
  | _ => none

/-- A thread read from the fields of a document. -/
def Thread.ofFields (fields : Fields) : Option Thread := do
  let text := fun key => (fields.get key).bind Value.asStr
  let members ← (fields.get "members").bind Value.asArray
  return {
    threadId := ← text "thread_id"
    createdBy := ← text "created_by"
    createdAt := ← text "created_at"
    members := ← members.mapM Value.asStr
    repo := text "repo"
    topic := text "topic"
    status := ← (text "status").bind ThreadStatus.ofStr }

def readThread (text : String) : Option Thread :=
  match fromStr text.toList with
  | .ok (.obj fields) => Thread.ofFields fields
  | _ => none

theorem depth_fields (t : Thread) : (Value.obj t.fields).depth ≤ maxDepth := by
  have hfields : Value.depthFields t.fields ≤ 1 := by
    refine (depthFields_le_iff _ _).2 ?_
    intro kv hkv
    simp only [Thread.fields, Fields.compact, List.mem_filterMap, List.mem_cons,
      List.not_mem_nil, or_false, Option.map_eq_some_iff] at hkv
    obtain ⟨slot, hslot, v, hv, rfl⟩ := hkv
    rcases hslot with rfl | rfl | rfl | rfl | rfl | rfl | rfl
    all_goals
      simp only [Option.some.injEq, Option.map_eq_some_iff] at hv
    · exact hv ▸ Nat.zero_le _
    · exact hv ▸ Nat.zero_le _
    · exact hv ▸ Nat.zero_le _
    · exact hv ▸ depth_texts _
    · obtain ⟨s, -, rfl⟩ := hv
      exact Nat.zero_le _
    · obtain ⟨s, -, rfl⟩ := hv
      exact Nat.zero_le _
    · exact hv ▸ Nat.zero_le _
  rw [Value.depth]
  exact (Nat.succ_le_succ hfields).trans (by decide)

theorem ofStr_asStr (status : ThreadStatus) : ThreadStatus.ofStr status.asStr = some status := by
  cases status <;> rfl

theorem ofFields_fields (t : Thread) : Thread.ofFields t.fields = some t := by
  obtain ⟨threadId, createdBy, createdAt, members, repo, topic, status⟩ := t
  cases repo <;> cases topic <;>
    simp [Thread.ofFields, Thread.fields, Fields.compact, Fields.get, List.lookup_cons,
      List.lookup_nil, Value.asStr,
      Value.asArray, mapM_asStr, ofStr_asStr, -List.mapM_map]

def sampleReader : ThreadReader where
  fromStr := readThread
  fromStr_text t := by
    rw [readThread, Thread.text, jsonText, String.toList_ofList, fromStr_print _ (depth_fields t)]
    exact ofFields_fields t

/-! ### Joins that overlap -/

def sampleThread : Thread where
  threadId := "t"
  createdBy := "a"
  createdAt := "2026-01-01T00:00:00.000000Z"
  members := ["a"]
  repo := none
  topic := none
  status := .opened

def sampleThreads (threadId : String) : Option Thread :=
  if threadId = "t" then some sampleThread else none

/-- The client that takes a step. -/
def ThreadInput.client : ThreadInput → Nat
  | .get client _ _ => client
  | .set client _ => client

/-- A step of one client is none of another's. -/
theorem pending_other {bus : ThreadBus} {other : Nat} {i : ThreadInput} (hne : other ≠ i.client) :
    (bus.step reader i).1.pending other = bus.pending other := by
  cases i with
  | get client call ok =>
    simp only [ThreadBus.step, ThreadBus.got]
    split
    · rfl
    · split
      · split
        · exact Function.update_of_ne hne _ _
        · rfl
      · rfl
  | set client ok =>
    simp only [ThreadBus.step, ThreadBus.written]
    split
    · rfl
    · split
      · exact Function.update_of_ne hne _ _
      · exact Function.update_of_ne hne _ _

theorem idle_exec {bus : ThreadBus} {client : Nat} (hidle : bus.pending client = none)
    {inputs : List ThreadInput} (hothers : ∀ i ∈ inputs, client ≠ i.client) :
    ((threadBus reader).exec bus inputs).1.pending client = none := by
  induction inputs using List.reverseRecOn with
  | nil => exact hidle
  | append_singleton inputs i ih =>
    rw [Machine.exec_snoc_fst]
    exact (pending_other (hothers i (by simp))).trans
      (ih fun j hj => hothers j (List.mem_append_left _ hj))

/-- A `SET` that follows its `GET` at once finds what that has read. -/
theorem fresh_get {bus : ThreadBus} {client : Nat} {call : ThreadCall} {threadId : String}
    {inputs pre : List ThreadInput} {p : PendingSet}
    (hidle : ((threadBus reader).exec bus inputs).1.pending client = none)
    (hpre : pre = inputs ++ [.get client call true]) (hid : call.threadId = threadId)
    (hp : ((threadBus reader).exec bus pre).1.pending client = some p) :
    ((threadBus reader).exec bus pre).1.stored threadId = p.read := by
  subst hpre hid
  rw [Machine.exec_snoc_fst] at hp ⊢
  generalize ((threadBus reader).exec bus inputs).1 = before at hidle hp ⊢
  have hstep : (threadBus reader).step before (.get client call true) =
      before.got reader client call := by
    show before.step reader (.get client call true) = _
    rw [ThreadBus.step, hidle]
    rfl
  rw [hstep, ThreadBus.got] at hp ⊢
  split at hp
  · next thread hedit =>
    have hset : some ⟨call, before.stored call.threadId, thread⟩ = some p := by
      rw [← hp]
      exact (Function.update_self client _ before.pending).symm
    rw [← Option.some.inj hset]
  · next e hedit =>
    have hnone : before.pending client = some p := hp
    rw [hidle] at hnone
    cases hnone

/-- Of two calls that both read before either writes, the record has what the second made of it. -/
theorem exec_overlap {threads : String → Option Thread} {c d : ThreadCall} {new new' : Thread}
    (hc : c.apply (threads c.threadId) = .ok new) (hd : d.apply (threads d.threadId) = .ok new') :
    ((threadBus reader).exec (.holding threads)
        [.get 0 c true, .get 1 d true, .set 0 true, .set 1 true]).2 =
        [⟨0, c, .ok new⟩, ⟨1, d, .ok new'⟩] ∧
      ((threadBus reader).exec (.holding threads)
        [.get 0 c true, .get 1 d true, .set 0 true, .set 1 true]).1.stored d.threadId =
        some new'.text := by
  rw [← edit_text reader] at hc hd
  simp [Machine.exec_cons, threadBus, ThreadBus.step, ThreadBus.holding, ThreadBus.got,
    ThreadBus.written, hc, hd]

/-- Each join is through before the next one begins. -/
theorem threads_serializable_sample :
    let inputs : List ThreadInput := [.get 0 (.join "t" "b") true, .set 0 true,
      .get 1 (.join "t" "c") true, .set 1 true]
    let run := (threadBus sampleReader).exec (.holding sampleThreads) inputs
    ∃ order thread, order.Perm (okCalls "t" run.2) ∧
      serialRun (sampleThreads "t") order = .ok thread ∧
      run.1.stored "t" = thread.map Thread.text := by
  refine threads_serializable sampleReader sampleThreads "t" _ ?_
  intro pre client post p hinputs hp _
  simp only [List.cons_eq_append_iff, List.cons.injEq, reduceCtorEq, false_and, and_false,
    false_or, ThreadInput.set.injEq, and_true, List.nil_eq_append_iff, or_false, exists_false]
    at hinputs
  obtain ⟨_, rfl, ⟨rfl, rfl, -⟩ | ⟨_, rfl, _, rfl, rfl, rfl, -⟩⟩ := hinputs
  · exact @fresh_get sampleReader _ 0 (.join "t" "b") "t" [] _ p rfl rfl rfl hp
  · have hidle : ((threadBus sampleReader).exec (.holding sampleThreads)
        [.get 0 (.join "t" "b") true, .set 0 true]).1.pending 1 = none :=
      @idle_exec sampleReader (.holding sampleThreads) 1 rfl _ (by decide)
    exact fresh_get hidle rfl rfl hp

theorem eq_or_eq_of_perm_pair {α : Type} {a b : α} {l : List α} (h : l.Perm [a, b]) :
    l = [a, b] ∨ l = [b, a] := by
  obtain ⟨x, y, rfl⟩ := List.length_eq_two.1 h.length_eq
  have hx : x ∈ [a, b] := h.subset List.mem_cons_self
  rcases List.mem_cons.1 hx with rfl | hx
  · have hy := List.singleton_perm_singleton.1 ((List.perm_cons _).1 h)
    exact Or.inl (by rw [hy])
  · rw [List.mem_singleton] at hx
    subst hx
    have hy := List.singleton_perm_singleton.1 ((List.perm_cons _).1 (h.trans (List.Perm.swap _ _ _)))
    exact Or.inr (by rw [hy])

/-- Two joins read the thread before either writes it: both return `Ok`, and the thread that is left
is not what they make of it one after the other, in either order. -/
theorem joins_lost :
    let inputs : List ThreadInput := [.get 0 (.join "t" "b") true, .get 1 (.join "t" "c") true,
      .set 0 true, .set 1 true]
    let run := (threadBus sampleReader).exec (.holding sampleThreads) inputs
    okCalls "t" run.2 = [.join "t" "b", .join "t" "c"] ∧
      ¬ ∃ order thread, order.Perm (okCalls "t" run.2) ∧
        serialRun (sampleThreads "t") order = .ok thread ∧
        run.1.stored "t" = thread.map Thread.text := by
  intro inputs run
  obtain ⟨hanswers, hstored⟩ := @exec_overlap sampleReader sampleThreads (.join "t" "b")
    (.join "t" "c") { sampleThread with members := ["a", "b"] }
    { sampleThread with members := ["a", "c"] } rfl rfl
  rw [ThreadCall.threadId] at hstored
  have hok : okCalls "t" run.2 = [.join "t" "b", .join "t" "c"] := by
    rw [hanswers]
    rfl
  refine ⟨hok, ?_⟩
  rintro ⟨order, thread, hperm, hserial, hthread⟩
  rw [hok] at hperm
  simp only [run, inputs, hstored] at hthread
  -- in either order the serial run has both members
  rcases eq_or_eq_of_perm_pair hperm with rfl | rfl
  · have hboth : serialRun (sampleThreads "t") [.join "t" "b", .join "t" "c"] =
        .ok (some { sampleThread with members := ["a", "b", "c"] }) := rfl
    rw [← Except.ok.inj (hboth.symm.trans hserial)] at hthread
    have hsame := text_injective sampleReader (Option.some.inj hthread)
    exact absurd (congrArg Thread.members hsame) (by decide)
  · have hboth : serialRun (sampleThreads "t") [.join "t" "c", .join "t" "b"] =
        .ok (some { sampleThread with members := ["a", "c", "b"] }) := rfl
    rw [← Except.ok.inj (hboth.symm.trans hserial)] at hthread
    have hsame := text_injective sampleReader (Option.some.inj hthread)
    exact absurd (congrArg Thread.members hsame) (by decide)

end AgentHub.Hub
