import AgentHub.Channels.Direct
import AgentHub.Channels.Equiv.Frame
import AgentHub.Channels.Equiv.Written
import AgentHub.Hub.Equiv.Script
import AgentHub.Keys
import AgentHub.Sync.Equiv.Entry
import Mathlib.Data.Sym.Sym2

/-!
# Who reads a direct message

The key of a direct channel joins the two names with a colon, which a name may have in it as well.
Two pairs of names share their key, and so their stream, exactly when one is the other with a middle
part moved from the second name to the first (`directKey_eq_iff`).  A message that is read was posted
under the key it is read from (`entriesFrom_exec`), so a direct channel is private to its pair
unless there is a pair it shares its key with (`direct_private_iff`).
-/

namespace AgentHub.Channels

open AgentHub.Text AgentHub.Validation AgentHub.Outbox AgentHub.Json Program
open AgentHub.Sync (StreamId Entry EntryFields Codec)
open AgentHub.Hub (Expiring readKey readKey_eq_some)

/-! ### Keys -/

/-- The pairs as they stand in their keys, one a shift of the other: `x` and `y:z`, `x:y` and `z`. -/
def Shifted (a b c d : String) : Prop :=
  Keys.Shift (min a b) (max a b) (min c d) (max c d)

theorem directKey_eq (a b : String) :
    directKey a b = directPrefix ++ (min a b ++ ":" ++ max a b) := by
  unfold directKey
  rw [min_def, max_def]
  split_ifs with h
  · simp only [toString, String.append_assoc]
  · simp only [toString, String.append_assoc]

theorem directKey_comm (a b : String) : directKey a b = directKey b a := by
  rw [directKey_eq, directKey_eq, min_comm, max_comm]

theorem minMax_eq_iff {a b c d : String} :
    min a b = min c d ∧ max a b = max c d ↔ s(a, b) = s(c, d) := by
  rw [Sym2.eq_iff]
  constructor
  · rintro ⟨hmin, hmax⟩
    rcases le_total a b with hab | hab <;> rcases le_total c d with hcd | hcd <;>
      simp_all
  · rintro (⟨rfl, rfl⟩ | ⟨rfl, rfl⟩)
    · exact ⟨rfl, rfl⟩
    · exact ⟨min_comm _ _, max_comm _ _⟩

/-- Names without a colon are no shift of others. -/
theorem Shifted.colon {a b c d : String} (h : Shifted a b c d) :
    ':' ∈ c.toList ∨ ':' ∈ d.toList := by
  have hmem : ':' ∈ (min c d).toList := Keys.Shift.colon h
  rcases min_choice c d with hc | hd
  · exact .inl (hc ▸ hmem)
  · exact .inr (hd ▸ hmem)

/-- **The pairs that share a key.** -/
theorem directKey_eq_iff {a b c d : String} :
    directKey a b = directKey c d ↔
      s(a, b) = s(c, d) ∨ Shifted a b c d ∨ Shifted c d a b := by
  rw [directKey_eq, directKey_eq, String.append_right_inj, Keys.joined_eq_iff, minMax_eq_iff]
  rfl

/-! ### What is under a key -/

/-- The fields of every entry meet a condition on the key the entry is under. -/
def ChannelStore.Holds (P : String → EntryFields → Prop) (s : ChannelStore) : Prop :=
  ∀ key slot, s.streams key = some slot → ∀ entry ∈ slot.value.entries, P key entry.fields

/-- Only entries that meet the condition are written. -/
def writing (P : String → EntryFields → Prop) : Discipline ChannelCall ChannelCall.Reply Unit where
  allows _ c := ∀ key fields, c = .xadd key fields → P key fields
  after _ _ _ := ()

section Holds

variable {P : String → EntryFields → Prop} {s : ChannelStore}

theorem holds_stream (h : s.Holds P) {key : String} {entry : Entry}
    (hmem : entry ∈ (s.stream key).entries) : P key entry.fields := by
  unfold ChannelStore.stream at hmem
  cases hread : readKey (s.streams key) s.nowMs with
  | none =>
    rw [hread] at hmem
    cases hmem
  | some stream =>
    rw [hread] at hmem
    obtain ⟨deadline, hslot, -⟩ := readKey_eq_some.1 hread
    exact h key _ hslot entry hmem

theorem mem_trimEntries {trimmed : Nat} {entries : List Entry} {entry : Entry}
    (h : entry ∈ trimEntries trimmed entries) : entry ∈ entries :=
  List.mem_of_mem_drop h

theorem setKey_streams (s : ChannelStore) (key : String) (slot : Option (Expiring Stream)) :
    (s.setKey key slot).streams key = slot := by
  unfold ChannelStore.setKey
  exact Function.update_self _ _ _

theorem setKey_streams_of_ne (s : ChannelStore) {key key' : String} (h : key' ≠ key)
    (slot : Option (Expiring Stream)) : (s.setKey key slot).streams key' = s.streams key' := by
  unfold ChannelStore.setKey
  exact Function.update_of_ne h _ _

theorem holds_setKey (h : s.Holds P) {key : String} {stream : Stream} {deadline : Option Nat}
    (hnew : ∀ entry ∈ stream.entries, P key entry.fields) :
    (s.setKey key (some ⟨stream, deadline⟩)).Holds P := by
  intro key' slot hslot entry hmem
  by_cases hkey : key' = key
  · subst hkey
    rw [setKey_streams] at hslot
    obtain rfl := Option.some.inj hslot
    exact hnew entry hmem
  · rw [setKey_streams_of_ne s hkey] at hslot
    exact h key' slot hslot entry hmem

theorem holds_xadd (h : s.Holds P) {key : String} {fields : EntryFields} {trimmed : Nat}
    (hnew : P key fields) : (s.xadd key fields trimmed).1.Holds P := by
  apply holds_setKey h
  intro entry hmem
  rcases List.mem_append.1 (mem_trimEntries hmem) with hold | hlast
  · exact holds_stream h hold
  · rw [List.mem_singleton.1 hlast]
    exact hnew

theorem holds_expire (h : s.Holds P) {key : String} {seconds : Nat} :
    (s.expire key seconds).Holds P := by
  unfold ChannelStore.expire
  cases hread : readKey (s.streams key) s.nowMs with
  | none => exact h
  | some stream =>
    obtain ⟨deadline, hslot, -⟩ := readKey_eq_some.1 hread
    exact holds_setKey h fun entry hmem => h key _ hslot entry hmem

theorem holds_settle {α : Type} {fate : Fate} {served : ChannelStore × Except String α}
    (h : s.Holds P) (hserved : served.1.Holds P) : (s.settle fate served).1.Holds P := by
  cases fate
  · exact hserved
  · exact h
  · exact hserved

theorem holds_serve {c : ChannelCall} {env : ChannelEnv} (h : s.Holds P)
    (hc : (writing P).allows () c) : (ChannelStore.serve c env s).1.Holds P := by
  have hwait : (s.wait env.delay).Holds P := h
  cases c with
  | connect => exact holds_settle hwait hwait
  | uuid => exact hwait
  | now => exact hwait
  | xadd key fields => exact holds_settle hwait (holds_xadd hwait (hc key fields rfl))
  | expire key seconds => exact holds_settle hwait (holds_expire hwait)
  | xrevrange key count => exact holds_settle hwait hwait

end Holds

/-! ### Where a message comes from -/

/-- The entry of a direct message, however it is identified and dated. -/
def EntryOf (sender recipient topic body : String) (threadId : Option String) (tags : List String)
    (fields : EntryFields) : Prop :=
  ∃ id timestampUtc, fields =
    (directPost sender recipient topic body threadId tags).entryFields id timestampUtc

/-- The outputs have a post between two agents under the key with these fields. -/
def EntryFrom (outs : List (DirectOp × Except AgentBusError DirectReply)) (key : String)
    (fields : EntryFields) : Prop :=
  ∃ sender recipient topic body threadId tags result,
    (DirectOp.post sender recipient topic body threadId tags, result) ∈ outs ∧
      key = directKey sender recipient ∧ EntryOf sender recipient topic body threadId tags fields

theorem EntryFrom.mono {outs outs' : List (DirectOp × Except AgentBusError DirectReply)}
    {key : String} {fields : EntryFields} (hsub : outs ⊆ outs') (h : EntryFrom outs key fields) :
    EntryFrom outs' key fields := by
  obtain ⟨sender, recipient, topic, body, threadId, tags, result, hmem, hrest⟩ := h
  exact ⟨sender, recipient, topic, body, threadId, tags, result, hsub hmem, hrest⟩

variable (codec : Codec)

theorem obeys_reported {P : String → EntryFields → Prop} {α : Type} {message : String}
    {r : Except String α} :
    (reported message r).Obeys (writing P) (fun _ _ => True) () := by
  cases r
  · trivial
  · trivial

theorem obeys_connect {P : String → EntryFields → Prop} :
    connect.Obeys (writing P) (fun _ _ => True) () :=
  obeys_perform_bind (by rintro _ _ ⟨⟩) fun _ => obeys_reported

theorem obeys_xaddToStream {P : String → EntryFields → Prop} {key : String} {p : ChannelPost}
    (h : ∀ id timestampUtc, P key (p.entryFields id timestampUtc)) :
    (xaddToStream key p).Obeys (writing P) (fun _ _ => True) () := by
  apply obeys_check_bind
  intro _ _
  refine obeys_perform_bind (by rintro _ _ ⟨⟩) fun id => ?_
  refine obeys_perform_bind (by rintro _ _ ⟨⟩) fun now => ?_
  refine obeys_perform_bind ?_ fun added => Obeys.bind ?_ obeys_reported
  · rintro _ _ ⟨⟩
    exact h id _
  · intro _ _ _
    refine obeys_perform_bind (by rintro _ _ ⟨⟩) fun refreshed => Obeys.bind ?_ obeys_reported
    intro _ _ _
    trivial

theorem obeys_readDirect {P : String → EntryFields → Prop} {a b : String} {limit : Nat} :
    (readDirect codec a b limit).Obeys (writing P) (fun _ _ => True) () := by
  refine Obeys.bind ?_ obeys_connect
  intro _ _ _
  refine obeys_perform_bind (by rintro _ _ ⟨⟩) fun reply => Obeys.bind ?_ obeys_reported
  intro _ _ _
  trivial

/-- What an operation writes is the entry of the message it posts. -/
theorem obeys_program {P : String → EntryFields → Prop} (op : DirectOp)
    (h : ∀ sender recipient topic body threadId tags fields,
      op = .post sender recipient topic body threadId tags →
      EntryOf sender recipient topic body threadId tags fields →
      P (directKey sender recipient) fields) :
    (op.program codec).Obeys (writing P) (fun _ _ => True) () := by
  cases op with
  | post sender recipient topic body threadId tags =>
    have hpost : (postDirect sender recipient topic body threadId tags).Obeys (writing P)
        (fun _ _ => True) () := by
      apply obeys_check_bind
      intro _ _
      refine Obeys.bind ?_ obeys_connect
      intro _ _ _
      apply obeys_xaddToStream
      intro id timestampUtc
      exact h _ _ _ _ _ _ _ rfl ⟨id, timestampUtc, rfl⟩
    refine Obeys.bind ?_ hpost
    intro _ _ _
    trivial
  | read agentA agentB limit =>
    refine Obeys.bind ?_ (obeys_readDirect codec)
    intro _ _ _
    trivial

/-- What a run has written was posted in it, under the key of its two agents. -/
theorem entriesFrom_exec (inputs : List DirectInput) :
    ((directBus codec).exec {} inputs).1.Holds
      (EntryFrom ((directBus codec).exec {} inputs).2) := by
  refine (directBus codec).exec_induction (P := fun _ s outs => s.Holds (EntryFrom outs)) ?_ ?_
    inputs
  · rintro key slot ⟨⟩
  · intro _ s outs i hs
    have hobeys := obeys_program (P := EntryFrom (outs ++ [(i.op, (s.perform codec i).2)]))
      codec i.op fun sender recipient topic body threadId tags fields hop hentry =>
        ⟨sender, recipient, topic, body, threadId, tags, _,
          List.mem_append_right _ (by rw [hop]; exact List.mem_singleton_self _), rfl, hentry⟩
    have hkept : s.Holds (EntryFrom (outs ++ [(i.op, (s.perform codec i).2)])) :=
      fun key slot hslot entry hmem => (hs key slot hslot entry hmem).mono
        (List.subset_append_left _ _)
    obtain ⟨_, hI, -⟩ := run_of_obeys ChannelStore.serve (.internal "unreachable")
      (I := fun (_ : Unit) t => t.Holds (EntryFrom (outs ++ [(i.op, (s.perform codec i).2)])))
      (fun _ c env t ht hc => holds_serve ht hc) hobeys i.env hkept
    exact hI

/-! ### What is read -/

section Connect

variable {β : Type} {f : Unit → Channeling β} {lost : AgentBusError} {env : Nat → ChannelEnv}
  {s : ChannelStore}

theorem run_connect (h : (env 0).fate = .served) :
    (connect >>= f).run ChannelStore.serve lost env s =
      (f ()).run ChannelStore.serve lost (fun n => env (n + 1)) (s.wait (env 0).delay) := by
  simp only [connect, perform_bind, call_bind, run, ChannelStore.serve, ChannelStore.execute, h,
    ChannelStore.settle, reported, done_bind]

theorem run_connect_ok {b : β} (h : ((connect >>= f).run ChannelStore.serve lost env s).2 = .ok b) :
    (env 0).fate = .served := by
  simp only [connect, perform_bind, call_bind, run, ChannelStore.serve, ChannelStore.execute] at h
  cases hfate : (env 0).fate with
  | served => rfl
  | refused e => simp [hfate, ChannelStore.settle, reported, run] at h
  | lost e => simp [hfate, ChannelStore.settle, reported, run] at h

end Connect

/-- A read of the stream under a key, when it succeeds. -/
theorem run_xread_ok {key : String} {limit : Nat} {lost : AgentBusError} {env : Nat → ChannelEnv}
    {s : ChannelStore} {ms : List Sync.Message}
    (h : ((xreadFromStream codec key limit).run ChannelStore.serve lost env s).2 = .ok ms) :
    ms = ((((s.wait (env 0).delay).stream key).entries.reverse.take (max limit 1)).map
      (decodeChannelEntry codec)).reverse := by
  simp only [xreadFromStream, perform_bind, run, ChannelStore.serve, ChannelStore.execute] at h
  cases hfate : (env 0).fate with
  | served =>
    simp only [hfate, ChannelStore.settle, ChannelStore.xrevrange] at h
    split_ifs at h
    · exact (Except.ok.inj h).symm
    · cases h
  | refused e => simp [hfate, ChannelStore.settle, reported, run] at h
  | lost e => simp [hfate, ChannelStore.settle, reported, run] at h

/-- The messages of a successful read are entries under the key of its agents. -/
theorem mem_read {s : ChannelStore} {env : Nat → ChannelEnv} {a b : String} {limit : Nat}
    {ms : List Sync.Message}
    (h : (s.perform codec ⟨.read a b limit, env⟩).2 = .ok (.messages ms)) :
    ∃ t : ChannelStore, t.streams = s.streams ∧
      ms = (((t.stream (directKey a b)).entries.reverse.take (max limit 1)).map
        (decodeChannelEntry codec)).reverse := by
  simp only [ChannelStore.perform, DirectOp.program, pure_eq, run_bind_done, readDirect] at h
  cases hrun : ((connect >>= fun _ => xreadFromStream codec (directKey a b) limit).run
      ChannelStore.serve (.internal "unreachable") env s).2 with
  | error e =>
    rw [hrun] at h
    cases h
  | ok read =>
    simp only [hrun, Except.map, Except.ok.injEq, DirectReply.messages.injEq] at h
    subst h
    rw [run_connect (run_connect_ok hrun)] at hrun
    have hread := run_xread_ok codec hrun
    exact ⟨(s.wait (env 0).delay).wait (env 1).delay, rfl, hread⟩

/-- Both agents of a channel read the same from it. -/
theorem read_comm (s : ChannelStore) (env : Nat → ChannelEnv) (a b : String) (limit : Nat) :
    s.perform codec ⟨.read a b limit, env⟩ = s.perform codec ⟨.read b a limit, env⟩ := by
  simp only [ChannelStore.perform, DirectOp.program, readDirect, directKey_comm a b]

/-! ### Privacy -/

theorem text_entryFields (p : ChannelPost) (id timestampUtc : String) :
    (p.entryFields id timestampUtc).text "from" = p.sender ∧
      (p.entryFields id timestampUtc).text "to" = p.recipient := by
  unfold ChannelPost.entryFields
  split_ifs
  · exact ⟨rfl, rfl⟩
  · exact ⟨rfl, rfl⟩

/-- The message was posted between the two agents, one way or the other. -/
def PostedBetween (outs : List (DirectOp × Except AgentBusError DirectReply)) (a b : String)
    (m : Sync.Message) : Prop :=
  ∃ sender recipient topic body threadId tags result id fields,
    (DirectOp.post sender recipient topic body threadId tags, result) ∈ outs ∧
      s(sender, recipient) = s(a, b) ∧
      EntryOf sender recipient topic body threadId tags fields ∧
      m = decodeChannelEntry codec ⟨id, fields⟩

/-- The agents of an entry of a direct message. -/
theorem agents_of_entryOf {sender recipient topic body : String} {threadId : Option String}
    {tags : List String} {fields : EntryFields} (id : StreamId)
    (h : EntryOf sender recipient topic body threadId tags fields) :
    (decodeChannelEntry codec ⟨id, fields⟩).fromAgent = sender ∧
      (decodeChannelEntry codec ⟨id, fields⟩).toAgent = recipient := by
  obtain ⟨uuid, timestampUtc, rfl⟩ := h
  exact text_entryFields _ uuid timestampUtc

theorem PostedBetween.agents {outs : List (DirectOp × Except AgentBusError DirectReply)}
    {a b : String} {m : Sync.Message} (h : PostedBetween codec outs a b m) :
    s(m.fromAgent, m.toAgent) = s(a, b) := by
  obtain ⟨sender, recipient, topic, body, threadId, tags, result, id, fields, -, hpair, hentry,
    rfl⟩ := h
  obtain ⟨hfrom, hto⟩ := agents_of_entryOf codec id hentry
  rw [hfrom, hto, hpair]

/-- What a run has read was posted in it, between agents with the same key. -/
theorem posted_of_read {inputs : List DirectInput} {c d : String} {limit : Nat}
    {ms : List Sync.Message}
    (h : (DirectOp.read c d limit, Except.ok (DirectReply.messages ms)) ∈
      ((directBus codec).exec {} inputs).2) {m : Sync.Message} (hm : m ∈ ms) :
    ∃ a b, directKey a b = directKey c d ∧
      PostedBetween codec ((directBus codec).exec {} inputs).2 a b m := by
  obtain ⟨pre, i, hpre, ho⟩ := (directBus codec).mem_exec.1 h
  set s := ((directBus codec).exec {} pre).1 with hs
  obtain ⟨hop, hread⟩ : i.op = .read c d limit ∧ (s.perform codec i).2 = .ok (.messages ms) := by
    have hpair := List.mem_singleton.1 ho
    exact ⟨(Prod.mk.inj hpair).1.symm, (Prod.mk.inj hpair).2.symm⟩
  obtain ⟨op, env⟩ := i
  obtain rfl : op = .read c d limit := hop
  obtain ⟨t, ht, rfl⟩ := mem_read codec hread
  simp only [List.mem_reverse, List.mem_map] at hm
  obtain ⟨entry, hentry, rfl⟩ := hm
  have hmem : entry ∈ (t.stream (directKey c d)).entries :=
    List.mem_reverse.1 (List.mem_of_mem_take hentry)
  have hholds : t.Holds (EntryFrom ((directBus codec).exec {} pre).2) := by
    intro key slot hslot
    rw [ht] at hslot
    exact entriesFrom_exec codec pre key slot hslot
  -- the outputs of the run so far are among those of the whole run
  have hsub : ((directBus codec).exec {} pre).2 ⊆ ((directBus codec).exec {} inputs).2 := by
    obtain ⟨rest, rfl⟩ := (List.prefix_append _ _).trans hpre
    rw [Machine.exec_append]
    exact List.subset_append_left _ _
  obtain ⟨sender, recipient, topic, body, threadId, tags, result, hpost, hkey, hfields⟩ :=
    (holds_stream hholds hmem).mono hsub
  exact ⟨sender, recipient, hkey.symm, sender, recipient, topic, body, threadId, tags, result,
    entry.id, entry.fields, hpost, rfl, hfields, rfl⟩

/-! ### Leaks -/

/-- Every command is carried out at once. -/
def calm : Nat → ChannelEnv := fun _ => ⟨0, .served, "0", 0⟩

theorem checkDirect_body {a b body : String} (h : checkDirect a b body = .ok ()) :
    checkDirect a b "hello" = .ok () := by
  obtain ⟨_, hnames, h⟩ := bind_eq_ok.1 h
  refine bind_eq_ok.2 ⟨(), hnames, ?_⟩
  split_ifs at h ⊢ <;> first | rfl | contradiction

theorem stream_setKey (s : ChannelStore) (key : String) (stream : Stream) (deadline : Option Nat)
    (h : ∀ t ∈ deadline, s.nowMs ≤ t) :
    (s.setKey key (some ⟨stream, deadline⟩)).stream key = stream := by
  have hread : readKey (some ⟨stream, deadline⟩) s.nowMs = some stream :=
    readKey_eq_some.2 ⟨deadline, rfl, h⟩
  show (readKey ((s.setKey key (some ⟨stream, deadline⟩)).streams key) s.nowMs).getD {} = stream
  rw [setKey_streams, hread]
  rfl

@[simp] theorem wait_zero (s : ChannelStore) : s.wait 0 = s := rfl

theorem le_deadline (s : ChannelStore) (key : String) : ∀ t ∈ s.deadline key, s.nowMs ≤ t := by
  intro t ht
  unfold ChannelStore.deadline at ht
  split_ifs at ht with hsome
  · obtain ⟨stream, hstream⟩ := Option.isSome_iff_exists.1 hsome
    obtain ⟨deadline, hslot, hle⟩ := readKey_eq_some.1 hstream
    rw [hslot] at ht
    exact hle t ht
  · cases ht

theorem stream_xadd (s : ChannelStore) (key : String) (fields : EntryFields) (trimmed : Nat) :
    ((s.xadd key fields trimmed).1.stream key).entries =
      trimEntries trimmed ((s.stream key).entries ++ [⟨(s.xadd key fields trimmed).2, fields⟩]) := by
  unfold ChannelStore.xadd
  rw [stream_setKey s key _ _ (le_deadline s key)]

theorem stream_expire (s : ChannelStore) (key : String) (seconds : Nat) :
    (s.expire key seconds).stream key = s.stream key := by
  unfold ChannelStore.expire
  cases hread : readKey (s.streams key) s.nowMs with
  | none => rfl
  | some stream =>
    show (s.setKey key _).stream key = s.stream key
    rw [stream_setKey s key _ _ (by rintro t ⟨⟩; omega)]
    show stream = (readKey (s.streams key) s.nowMs).getD {}
    rw [hread]
    rfl

/-- A post to an empty store leaves its entry under the key. -/
theorem run_xadd_calm (key : String) (p : ChannelPost) (lost : AgentBusError)
    (h : checkEntry p.topic p.body = .ok ()) :
    ∃ id timestampUtc, (((xaddToStream key p).run ChannelStore.serve lost calm {}).1.stream
      key).entries = [⟨id, p.entryFields "0" timestampUtc⟩] := by
  simp only [xaddToStream, h, check_ok, done_bind, perform_bind, pure_eq, run, ChannelStore.serve,
    ChannelStore.execute, ChannelStore.settle, calm, reported, wait_zero, stream_expire,
    stream_xadd]
  exact ⟨_, _, rfl⟩

theorem perform_post_calm {a b : String} (h : checkDirect a b "hello" = .ok ()) :
    ∃ id fields, EntryOf a b "note" "hello" none [] fields ∧
      ((({} : ChannelStore).perform codec ⟨.post a b "note" "hello" none [], calm⟩).1.stream
        (directKey a b)).entries = [⟨id, fields⟩] := by
  have hentry : checkEntry "note" "hello" = .ok () := by decide
  obtain ⟨id, timestampUtc, hstream⟩ := run_xadd_calm (directKey a b)
    (directPost a b "note" "hello" none []) (.internal "unreachable") hentry
  refine ⟨id, _, ⟨"0", timestampUtc, rfl⟩, ?_⟩
  rw [← hstream]
  simp only [ChannelStore.perform, DirectOp.program, pure_eq, run_bind_done, postDirect, h,
    check_ok, done_bind]
  rw [run_connect rfl]
  rfl

theorem perform_read_calm (s : ChannelStore) (c d : String) :
    (s.perform codec ⟨.read c d 1, calm⟩).2 =
      .ok (.messages ((((s.stream (directKey c d)).entries.reverse.take 1).map
        (decodeChannelEntry codec)).reverse)) := by
  simp only [ChannelStore.perform, DirectOp.program, pure_eq, run_bind_done, readDirect]
  rw [run_connect rfl]
  rfl

/-- With equal keys, a message is read by others than its agents. -/
theorem exists_leak {a b c d : String} (h : checkDirect a b "hello" = .ok ())
    (hkey : directKey a b = directKey c d) :
    ∃ inputs limit ms m,
      (DirectOp.read c d limit, Except.ok (DirectReply.messages ms)) ∈
        ((directBus codec).exec {} inputs).2 ∧ m ∈ ms ∧
      PostedBetween codec ((directBus codec).exec {} inputs).2 a b m := by
  obtain ⟨id, fields, hfields, hstream⟩ := perform_post_calm codec h
  set post : DirectInput := ⟨.post a b "note" "hello" none [], calm⟩
  have hread := perform_read_calm codec (({} : ChannelStore).perform codec post).1 c d
  rw [← hkey, hstream] at hread
  refine ⟨[post, ⟨.read c d 1, calm⟩], 1, [decodeChannelEntry codec ⟨id, fields⟩],
    decodeChannelEntry codec ⟨id, fields⟩, ?_, List.mem_singleton_self _, ?_⟩
  · rw [Machine.exec_cons]
    apply List.mem_append_right
    rw [Machine.exec_cons]
    apply List.mem_append_left
    refine List.mem_singleton.2 (Prod.ext rfl ?_)
    exact hread.symm
  · refine ⟨a, b, "note", "hello", none, [], (({} : ChannelStore).perform codec post).2, id, fields,
      ?_, rfl, hfields, rfl⟩
    rw [Machine.exec_cons]
    exact List.mem_append_left _ (List.mem_singleton_self _)

/-- No message posted between the first two agents is ever read for the other two. -/
def KeptFrom (a b c d : String) : Prop :=
  ∀ inputs limit ms,
    (DirectOp.read c d limit, Except.ok (DirectReply.messages ms)) ∈
      ((directBus codec).exec {} inputs).2 →
    ∀ m ∈ ms, ¬ PostedBetween codec ((directBus codec).exec {} inputs).2 a b m

/-- A direct channel is kept from the pairs that have another key. -/
theorem keptFrom_iff {a b c d body : String} (h : checkDirect a b body = .ok ()) :
    KeptFrom codec a b c d ↔ directKey a b ≠ directKey c d := by
  constructor
  · intro hkept hkey
    obtain ⟨inputs, limit, ms, m, hread, hm, hposted⟩ :=
      exists_leak codec (checkDirect_body h) hkey
    exact hkept inputs limit ms hread m hm hposted
  · intro hne inputs limit ms hread m hm hposted
    obtain ⟨a', b', hkey, hposted'⟩ := posted_of_read codec hread hm
    have hsame : s(a, b) = s(a', b') := hposted.agents.symm.trans hposted'.agents
    apply hne
    rw [← hkey]
    exact directKey_eq_iff.2 (.inl hsame)

/-- **A direct channel is private to its pair unless another pair is a shift of it**, and both
agents of a pair read the same from it. -/
theorem direct_private_iff {a b c d body : String} (h : checkDirect a b body = .ok ())
    (hpairs : s(a, b) ≠ s(c, d)) :
    (KeptFrom codec a b c d ↔ ¬ Shifted a b c d ∧ ¬ Shifted c d a b) ∧
    ∀ (s : ChannelStore) env limit,
      s.perform codec ⟨.read a b limit, env⟩ = s.perform codec ⟨.read b a limit, env⟩ := by
  refine ⟨?_, fun s env limit => read_comm codec s env a b limit⟩
  rw [keptFrom_iff codec h, Ne, directKey_eq_iff, not_or, not_or]
  exact and_iff_right hpairs

/-- Libraries for entries without numbers. -/
def plainCodec : Codec where
  doubles := plainDoubles
  lz4DecompressBody := fun _ => none

/-- A channel between names without colons. -/
theorem direct_private_plain : KeptFrom plainCodec "alice" "bob" "carol" "dave" := by
  have hpairs : s("alice", "bob") ≠ s("carol", "dave") := by
    rw [Ne, Sym2.eq_iff]
    decide
  have hpost : checkDirect "alice" "bob" "hello" = .ok () := by decide
  apply (direct_private_iff plainCodec hpost hpairs).1.2
  constructor
  · intro h
    exact absurd h.colon (by decide)
  · intro h
    exact absurd h.colon (by decide)

/-- `x` writes to `y:z`, and `x:y` and `z` read it. -/
theorem direct_leaks :
    checkDirect "x" "y:z" "hello" = .ok () ∧ checkDirect "x:y" "z" "hello" = .ok () ∧
      s("x", "y:z") ≠ s("x:y", "z") ∧ ¬ KeptFrom plainCodec "x" "y:z" "x:y" "z" := by
  have hpost : checkDirect "x" "y:z" "hello" = .ok () := by decide
  have hkey : directKey "x" "y:z" = directKey "x:y" "z" := by decide
  refine ⟨hpost, by decide, ?_, fun h => (keptFrom_iff plainCodec hpost).1 h hkey⟩
  rw [Ne, Sym2.eq_iff]
  decide

end AgentHub.Channels
