import AgentHub.Export.Journal
import AgentHub.Hub.Equiv.Compare
import AgentHub.Json.Equiv.Utf8
import AgentHub.Lines

/-!
# When a journal has each message once

A call takes the ids on the lines it can read, and appends a line for every message without one.  While
no call finds a torn last line and something to append, gives one id to two new messages or appends a
document too deep to be read, the file stays a list of whole lines with distinct ids and, after a call
that was cut off, a part of a line (`FileInv`).

In the runs whose calls all keep to that, each message has one line (`journal_once`).
-/

namespace AgentHub.Export

open AgentHub.Json AgentHub.Lines

variable {d : Doubles}

/-! ### One line -/

/-- A message whose line can be read. -/
structure Readable (d : Doubles) (m : Sync.Message) : Prop where
  shallow : m.metadata.depth < maxDepth
  valued : (document d m.metadata).isSome

theorem mem_compact {kvs : List (String × Option Value)} {kv : String × Value}
    (h : kv ∈ Fields.compact kvs) : (kv.1, some kv.2) ∈ kvs := by
  obtain ⟨slot, hslot, hkv⟩ := List.mem_filterMap.1 h
  obtain ⟨v, hv, rfl⟩ := Option.map_eq_some_iff.1 hkv
  rw [← hv]
  exact hslot

/-- A field is the metadata, or a scalar or a list of texts. -/
theorem mem_messageFields {m : Sync.Message} {kv : String × Value} (h : kv ∈ messageFields m) :
    kv.2 = m.metadata ∨ kv.2 = .arr (m.tags.map .str) ∨ (∃ s, kv.2 = .str s) ∨
      (∃ b, kv.2 = .bool b) ∨ ∃ n : UInt64, kv.2 = .int n.toNat := by
  obtain ⟨k, v⟩ := kv
  rcases List.mem_append.1 h with h | h
  · have hslot := mem_compact h
    simp only [List.mem_cons, List.not_mem_nil, or_false, Prod.mk.injEq, Option.some.injEq,
      eq_comm (a := some v), Option.map_eq_some_iff] at hslot
    grind
  · have hslot := mem_compact h
    simp only [List.mem_cons, List.not_mem_nil, or_false, Prod.mk.injEq,
      eq_comm (a := some v), Option.map_eq_some_iff] at hslot
    grind

theorem depth_messageFields {m : Sync.Message} (h : m.metadata.depth < maxDepth) :
    (Value.obj (messageFields m)).depth ≤ maxDepth := by
  show Value.depthFields _ + 1 ≤ maxDepth
  refine Nat.succ_le_of_lt (Nat.lt_of_le_of_lt ?_ (by decide : 126 < maxDepth))
  rw [depthFields_le_iff]
  intro kv hkv
  rcases mem_messageFields hkv with heq | heq | ⟨s, heq⟩ | ⟨b, heq⟩ | ⟨n, heq⟩
  · rw [heq]
    exact Nat.le_of_lt_succ h
  · rw [heq]
    exact (depth_texts m.tags).trans (by decide)
  · rw [heq]
    exact Nat.zero_le _
  · rw [heq]
    exact Nat.zero_le _
  · rw [heq]
    exact Nat.zero_le _

theorem document_messageFields {m : Sync.Message} (h : (document d m.metadata).isSome) :
    (document d (.obj (messageFields m))).isSome := by
  apply document_obj_isSome
  intro kv hkv
  rcases mem_messageFields hkv with heq | heq | ⟨s, heq⟩ | ⟨b, heq⟩ | ⟨n, heq⟩
  · rwa [heq]
  · rw [heq, document_arr_str]
    rfl
  · rw [heq]
    rfl
  · rw [heq]
    rfl
  · rw [heq]
    rfl

theorem nodup_messageFields (m : Sync.Message) : ((messageFields m).map Prod.fst).Nodup := by
  rw [messageFields, Hub.Message.fields, Fields.compact, Fields.compact, ← List.filterMap_append]
  exact present_keys_nodup (by simp)

/-- The line of a message is read as a document with its id. -/
theorem lineId_journalLine {m : Sync.Message} (h : Readable d m) :
    (decodeUtf8 (journalLine m)).bind (lineId d) = some m.id := by
  obtain ⟨w, hw⟩ := Option.isSome_iff_exists.1 (document_messageFields h.valued)
  have hread : readDocument d (print (.obj (messageFields m))) = some w := by
    rw [readDocument, fromStr_print _ (depth_messageFields h.shallow)]
    exact hw
  have hid : w.field? "id" = some (.str m.id) := by
    rw [document_obj (nodup_messageFields m) hw]
    rfl
  rw [journalLine, toVec, decodeUtf8, utf8Decode_utf8]
  simp only [Option.map_some, Option.bind_some, lineId, hread, hid]
  rfl

theorem newline_notMem_journalLine (m : Sync.Message) : (10 : UInt8) ∉ journalLine m :=
  newline_notMem_toVec _

theorem stripReturn_journalLine (m : Sync.Message) : stripReturn (journalLine m) = journalLine m := by
  refine if_neg fun hlast => ?_
  obtain ⟨c, hc, hcode⟩ := mem_of_mem_utf8 (by decide) (List.mem_of_getLast? hlast)
  have hprintable := printable_print _ c hc
  rw [hcode] at hprintable
  exact absurd hprintable (by decide)

/-! ### A file of lines -/

/-- The lines of some messages, and a part of one. -/
def fileOf (ms : List Sync.Message) (part : List UInt8) : List UInt8 :=
  joined 10 (ms.map journalLine) ++ part

variable {ms : List Sync.Message} {part : List UInt8}

theorem newline_notMem_lines (ms : List Sync.Message) :
    ∀ line ∈ ms.map journalLine, (10 : UInt8) ∉ line := by
  intro line hline
  obtain ⟨m, -, rfl⟩ := List.mem_map.1 hline
  exact newline_notMem_journalLine m

theorem splitOn_fileOf (hpart : (10 : UInt8) ∉ part) :
    (fileOf ms part).splitOn 10 = ms.map journalLine ++ [part] :=
  splitOn_lines (newline_notMem_lines ms) hpart

theorem wholeLines_fileOf (hpart : (10 : UInt8) ∉ part) :
    wholeLines (fileOf ms part) = ms.map journalLine := by
  rw [wholeLines, splitOn_fileOf hpart, List.dropLast_concat, List.map_map]
  refine List.map_congr_left ?_
  intro m _
  rw [Function.comp_apply, stripReturn_journalLine]

theorem wholeIds_fileOf (hms : ∀ m ∈ ms, Readable d m) (hpart : (10 : UInt8) ∉ part) :
    wholeIds d (fileOf ms part) = ms.map fun m => m.id := by
  rw [wholeIds, wholeLines_fileOf hpart, List.filterMap_map]
  induction ms with
  | nil => rfl
  | cons m ms ih =>
    rw [List.filterMap_cons, Function.comp_apply, lineId_journalLine (hms m List.mem_cons_self),
      List.map_cons, ih fun other hother => hms other (List.mem_cons_of_mem _ hother)]

/-- The lines of messages do not stop the reader. -/
theorem textLines_append (hms : ∀ m ∈ ms, Readable d m) (rest : List (List UInt8)) :
    (textLines (ms.map journalLine ++ rest)).filterMap (lineId d) =
      ms.map (fun m => m.id) ++ (textLines rest).filterMap (lineId d) := by
  induction ms with
  | nil => rfl
  | cons m ms ih =>
    have hline := lineId_journalLine (hms m List.mem_cons_self)
    obtain ⟨text, htext, hid⟩ := Option.bind_eq_some_iff.1 hline
    rw [List.map_cons, List.cons_append, textLines, htext, List.filterMap_cons, hid,
      ih fun other hother => hms other (List.mem_cons_of_mem _ hother)]
    rfl

theorem loadExistingIds_fileOf (hms : ∀ m ∈ ms, Readable d m) (hpart : (10 : UInt8) ∉ part) :
    ∃ tail, loadExistingIds d (fileOf ms part) = ms.map (fun m => m.id) ++ tail ∧
      (part = [] → tail = []) := by
  rw [loadExistingIds, bufLines, wholeLines_fileOf hpart, splitOn_fileOf hpart, List.getLast?_concat,
    textLines_append hms]
  refine ⟨_, rfl, ?_⟩
  rintro rfl
  rfl

/-! ### Calls -/

/-- The file ends where a line does. -/
def Ended (bytes : List UInt8) : Prop := bytes = [] ∨ bytes.getLast? = some 10

/-- The condition a call meets: on a file that ends where a line does, the messages that are new have
distinct ids and are no deeper than the reader allows; on one with a torn last line, each of the
messages is on a whole line already. -/
def Upholds (d : Doubles) (bytes : List UInt8) (call : Call d) : Prop :=
  (Ended bytes → ((newMessages d bytes call.messages).map fun m => m.id).Nodup ∧
    ∀ m ∈ newMessages d bytes call.messages, m.metadata.depth < maxDepth) ∧
  (¬Ended bytes → ∀ m ∈ call.messages, m.id ∈ wholeIds d bytes)

theorem ended_fileOf (hpart : (10 : UInt8) ∉ part) : Ended (fileOf ms part) ↔ part = [] := by
  constructor
  · rintro (hnil | hlast)
    · exact (List.append_eq_nil_iff.1 hnil).2
    · by_contra hne
      rw [fileOf, List.getLast?_append_of_ne_nil _ hne] at hlast
      exact hpart (List.mem_of_getLast? hlast)
  · rintro rfl
    rw [Ended, fileOf, List.append_nil]
    by_cases hms : ms = []
    · left
      rw [hms]
      rfl
    · right
      exact getLast?_joined fun h => hms (List.map_eq_nil_iff.1 h)

/-- Whole lines of readable messages with distinct ids, and a part of a line. -/
def FileInv (d : Doubles) (bytes : List UInt8) : Prop :=
  ∃ ms part, bytes = fileOf ms part ∧ (10 : UInt8) ∉ part ∧ (∀ m ∈ ms, Readable d m) ∧
    (ms.map fun m => m.id).Nodup

theorem appended_eq (bytes : List UInt8) (messages : List Sync.Message) :
    appended d bytes messages = joined 10 ((newMessages d bytes messages).map journalLine) := by
  rw [appended, joined, List.flatMap_map]

/-- On a file that ends where a line does, the ids of what is there and of what is new are distinct. -/
theorem newMessages_spec {bytes : List UInt8} {call : Call d} (hbytes : bytes = fileOf ms [])
    (hms : ∀ m ∈ ms, Readable d m) (hnodup : (ms.map fun m => m.id).Nodup)
    (hcall : Upholds d bytes call) :
    (∀ m ∈ newMessages d bytes call.messages, Readable d m) ∧
      ((ms ++ newMessages d bytes call.messages).map fun m => m.id).Nodup ∧
      ∀ m ∈ call.messages, m.id ∈ (ms ++ newMessages d bytes call.messages).map fun m => m.id := by
  obtain ⟨hdistinct, hshallow⟩ := hcall.1 (hbytes ▸ (ended_fileOf List.not_mem_nil).2 rfl)
  obtain ⟨tail, hload, htail⟩ := @loadExistingIds_fileOf d ms [] hms List.not_mem_nil
  rw [htail rfl, List.append_nil, ← hbytes] at hload
  have hmem : ∀ m, m ∈ newMessages d bytes call.messages ↔
      m ∈ call.messages ∧ m.id ∉ ms.map fun m => m.id := by
    intro m
    rw [newMessages, List.mem_filter, hload]
    simp
  refine ⟨fun m hm => ⟨hshallow m hm, call.valued m ((hmem m).1 hm).1⟩, ?_, ?_⟩
  · rw [List.map_append]
    refine hnodup.append hdistinct ?_
    intro id hold hnew
    obtain ⟨m, hm, rfl⟩ := List.mem_map.1 hnew
    exact ((hmem m).1 hm).2 hold
  · intro m hm
    rw [List.map_append, List.mem_append]
    by_cases hold : m.id ∈ ms.map fun m => m.id
    · exact .inl hold
    · exact .inr (List.mem_map_of_mem (f := fun m : Sync.Message => m.id) ((hmem m).2 ⟨hm, hold⟩))

/-- Where every message is on a whole line, nothing is new. -/
theorem newMessages_eq_nil {bytes : List UInt8} {messages : List Sync.Message}
    (hbytes : bytes = fileOf ms part) (hpart : (10 : UInt8) ∉ part) (hms : ∀ m ∈ ms, Readable d m)
    (h : ∀ m ∈ messages, m.id ∈ wholeIds d bytes) : newMessages d bytes messages = [] := by
  obtain ⟨tail, hload, -⟩ := loadExistingIds_fileOf hms hpart
  rw [newMessages, List.filter_eq_nil_iff]
  intro m hm hnew
  have hid := h m hm
  rw [hbytes, wholeIds_fileOf hms hpart] at hid
  rw [hbytes, hload] at hnew
  exact of_decide_eq_true hnew (List.mem_append_left _ hid)

/-- A call that meets the condition leaves whole lines with distinct ids, and after one that is not cut
off the messages it was given are among them. -/
theorem fileInv_step {bytes : List UInt8} {call : Call d} (h : FileInv d bytes)
    (hcall : Upholds d bytes call) :
    FileInv d ((machine d).step bytes call).1 ∧
      (call.cut = none → ∀ m ∈ call.messages,
        m.id ∈ wholeIds d ((machine d).step bytes call).1) := by
  obtain ⟨ms, part, hbytes, hpart, hms, hnodup⟩ := h
  -- the file ends with a newline, or with a part of a line
  by_cases hnil : part = []
  · subst hnil
    obtain ⟨hnew, hall, hgiven⟩ := newMessages_spec hbytes hms hnodup hcall
    have hboth : ∀ m ∈ ms ++ newMessages d bytes call.messages, Readable d m := by
      intro m hm
      exact (List.mem_append.1 hm).elim (hms m) (hnew m)
    have hwhole : bytes ++ appended d bytes call.messages =
        fileOf (ms ++ newMessages d bytes call.messages) [] := by
      rw [appended_eq, hbytes, fileOf, fileOf, List.append_nil, List.append_nil, List.map_append,
        joined_append]
    -- the whole text was written
    cases hcut : call.cut with
    | none =>
      simp only [machine, hcut, hwhole]
      refine ⟨⟨_, [], rfl, List.not_mem_nil, hboth, hall⟩, fun _ m hm => ?_⟩
      rw [wholeIds_fileOf hboth List.not_mem_nil]
      exact hgiven m hm
    -- it was cut: whole lines are left, and a part of the next
    | some n =>
      simp only [machine, hcut, reduceCtorEq, false_implies, and_true]
      have hprefix : bytes ++ (appended d bytes call.messages).take n <+:
          joined 10 ((ms ++ newMessages d bytes call.messages).map journalLine) ++ [] := by
        have := hwhole ▸ (List.prefix_append_right_inj bytes).2
          (List.take_prefix n (appended d bytes call.messages))
        exact this
      obtain ⟨k, rest, -, hrest, heq⟩ :=
        cut_lines (newline_notMem_lines _) List.not_mem_nil hprefix
      rw [← List.map_take] at heq
      refine ⟨_, rest, heq, hrest, fun m hm => hboth m (List.mem_of_mem_take hm), ?_⟩
      rw [List.map_take]
      exact hall.sublist (List.take_sublist _ _)
  · -- behind a partial line nothing new may be appended, and nothing is
    have hended : ¬Ended bytes := by rw [hbytes, ended_fileOf hpart]; exact hnil
    have hgiven := hcall.2 hended
    have hnew : newMessages d bytes call.messages = [] :=
      newMessages_eq_nil hbytes hpart hms hgiven
    have happended : appended d bytes call.messages = [] := by rw [appended, hnew]; rfl
    have hsame : ((machine d).step bytes call).1 = bytes := by
      cases hcut : call.cut <;> simp [machine, hcut, happended]
    rw [hsame]
    exact ⟨⟨ms, part, hbytes, hpart, hms, hnodup⟩, fun _ => hgiven⟩

theorem fileInv_exec {is : List (Call d)} (h : (machine d).Meets (Upholds d) [] is) :
    FileInv d ((machine d).exec [] is).1 := by
  refine (machine d).exec_of_meets (I := fun bytes _ => FileInv d bytes) ?_ ?_ h
  · exact fun bytes _ call hinv hcall => (fileInv_step hinv hcall).1
  · exact ⟨[], [], rfl, List.not_mem_nil, by simp, by simp⟩

/-- **A journal has each message once.**  In every run of calls, any of them cut off after any byte,
that all meet the condition, the file a call that was not cut off leaves has each id of its messages on
exactly one whole line. -/
theorem journal_once {is : List (Call d)} {call : Call d} (hcut : call.cut = none)
    (h : (machine d).Meets (Upholds d) [] (is ++ [call])) :
    ∀ m ∈ call.messages, (wholeIds d ((machine d).exec [] (is ++ [call])).1).count m.id = 1 := by
  intro m hm
  obtain ⟨his, hcall, -⟩ := (machine d).meets_append.1 h
  obtain ⟨hinv, hgiven⟩ := fileInv_step (fileInv_exec his) hcall
  rw [Machine.exec_snoc_fst]
  obtain ⟨ms, part, hbytes, hpart, hms, hnodup⟩ := hinv
  have hmem := hgiven hcut m hm
  rw [hbytes, wholeIds_fileOf hms hpart] at hmem ⊢
  exact List.count_eq_one_of_mem hnodup hmem

/-! One message, exported twice; and cut off after its first byte, then exported again. -/

def sampleMessage : Sync.Message where
  id := "m"
  timestampUtc := "t"
  protocolVersion := "1.0"
  fromAgent := "a"
  toAgent := "b"
  topic := "c"
  body := "d"
  threadId := none
  tags := []
  priority := "normal"
  requestAck := false
  replyTo := none
  metadata := .null
  streamId := none
  clientMsgId := none
  originHub := none
  originSeq := none
  hlc := none
  sensitivity := none

theorem valued_sampleMessage :
    ∀ m ∈ [sampleMessage], (document plainDoubles m.metadata).isSome := by
  intro m hm
  rw [List.mem_singleton.1 hm]
  rfl

def sampleCall (cut : Option Nat) : Call plainDoubles := ⟨[sampleMessage], cut, valued_sampleMessage⟩

theorem upholds_sampleCall {bytes : List UInt8} (h : Ended bytes) (cut : Option Nat) :
    Upholds plainDoubles bytes (sampleCall cut) := by
  have hnew : (newMessages plainDoubles bytes [sampleMessage]).Sublist [sampleMessage] :=
    List.filter_sublist
  refine ⟨fun _ => ⟨(hnew.map _).nodup (by simp), fun m hm => ?_⟩, fun hnot => absurd h hnot⟩
  rw [List.mem_singleton.1 (hnew.subset hm)]
  decide

theorem journal_once_sample :
    (wholeIds plainDoubles ((machine plainDoubles).exec []
      ([sampleCall none] ++ [sampleCall none])).1).count "m" = 1 := by
  have hended : Ended ((machine plainDoubles).step [] (sampleCall none)).1 := .inr (by decide +kernel)
  have hmeets : (machine plainDoubles).Meets (Upholds plainDoubles) []
      ([sampleCall none] ++ [sampleCall none]) :=
    ⟨upholds_sampleCall (.inl rfl) none, upholds_sampleCall hended none, trivial⟩
  exact journal_once rfl hmeets sampleMessage List.mem_cons_self

/-- The journal has no line of a message whose export succeeded after one that was cut off. -/
theorem torn_line_merged :
    (machine plainDoubles).exec [] [sampleCall (some 1), sampleCall none] =
        (123 :: (journalLine sampleMessage ++ [10]), [1]) ∧
      wholeIds plainDoubles (123 :: (journalLine sampleMessage ++ [10])) = [] := by
  constructor
  · decide +kernel
  · decide +kernel

end AgentHub.Export
