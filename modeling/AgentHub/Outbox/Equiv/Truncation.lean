import AgentHub.Outbox.Equiv.Bytes

/-!
# Journals that are cut short

A journal only ever grows at its end, so what a crash of the disk can leave is a prefix of its bytes.
Cut between two records, `load` finds the records before the cut and nothing else, and the file held
just these at an earlier point of the run (`held_before`).  Cut anywhere else, the last byte is not a
newline, and `load` refuses the file without touching it (`loadBytes_truncated`).
-/

namespace AgentHub.Outbox

open AgentHub.Json

/-! ### The state of some records -/

/-- The journal that records make, the header included. -/
structure Reads (es : List Event) (j : Journal) : Prop where
  origin : ∀ o d, .header o d ∈ es → j.originId = o
  next : j.nextSequence.toNat = (queuedRequests es).length + 1
  pending : j.pending = retained es
  attempted : ∀ id, id ∈ j.attempted ↔ id ∈ attemptedIds es ∧ id ∉ settledIds es
  clean : j.poisoned = false

/-- Requests are numbered from one on, and the origin is that of the header. -/
theorem applyEvents_numbers {o : Uuid} {d : String} {es : List Event} {s : Loading}
    (h : applyEvents none (Loading.boundTo o d) es = .ok s) :
    s.journal.nextSequence.toNat = (queuedRequests es).length + 1 ∧ s.journal.originId = o ∧
      ∀ o' d', Event.header o' d' ∉ es := by
  induction es using List.reverseRecOn generalizing s with
  | nil =>
    simp only [applyEvents, Except.ok.injEq] at h
    subst h
    exact ⟨rfl, rfl, by simp⟩
  | append_singleton es e ih =>
    -- each record is applied to what the ones before it left
    rw [applyEvents_append] at h
    cases ht : applyEvents none (Loading.boundTo o d) es with
    | error err => simp [ht, Except.bind] at h
    | ok t =>
      simp only [ht, Except.bind, applyEvents_singleton] at h
      obtain ⟨hnext, horigin, hnone⟩ := ih ht
      have hseen := (logState_of_applyEvents ht).headerSeen
      have hkeeps := (applyEvent_keeps hseen h).2.2
      obtain ⟨-, ⟨r, rfl, hr⟩ | ⟨id, rfl, hr⟩ | ⟨id, x, rfl, hr⟩⟩ := applyEvent_ok hseen h
      · -- only a request moves the counter
        obtain ⟨-, -, -, hseq, -, n, hn, rfl⟩ := applyQueued_ok hr
        refine ⟨?_, horigin, ?_⟩
        · show n.toNat = _
          rw [checkedAdd_one hn, hseq, hnext, queuedRequests_append]
          simp
        · simpa using hnone
      · obtain ⟨-, -, rfl⟩ := applyAttempted_ok hr
        exact ⟨by simpa [queuedRequests_append] using hnext, horigin, by simpa using hnone⟩
      · obtain ⟨r, -, -, rfl⟩ := applySettled_ok hr
        exact ⟨by simpa [queuedRequests_append] using hnext, horigin, by simpa using hnone⟩

theorem LoadsTo.reads {d : String} {es : List Event} {s : Loading} (h : LoadsTo d es s) :
    Reads es s.journal := by
  have hstate := h.state
  obtain ⟨o, rest, rfl, -, happly⟩ := h
  obtain ⟨hnext, horigin, hnone⟩ := applyEvents_numbers happly
  exact
    { origin := by
        intro o' d' hmem
        rcases List.mem_cons.1 hmem with heq | hmem
        · cases heq
          exact horigin
        · exact absurd hmem (hnone o' d')
      next := by simpa using hnext
      pending := hstate.pending
      attempted := hstate.attempted
      clean := hstate.clean }

theorem reads_start (o : Uuid) : Reads [] (Loading.start o).journal where
  origin := by simp
  next := rfl
  pending := rfl
  attempted := by simp [Loading.start]
  clean := rfl

/-! ### A new header

The header of an empty file is short, so binding the file cannot fail for want of room. -/

theorem utf8Len_escapeChar_le (c : Char) : utf8Len (escapeChar c) ≤ 6 * c.utf8Size := by
  have hpos : 1 ≤ c.utf8Size := c.utf8Size_pos
  have hslash : Char.utf8Size '\\' = 1 := by decide
  have hform := escaped_escapeChar c
  generalize escapeChar c = text at hform ⊢
  cases hform with
  | short letter hmem =>
    have hletters : ∀ p ∈ shortEscapes, p.1.utf8Size = 1 := by decide
    simp only [utf8Len, List.map_cons, List.map_nil, List.sum_cons, List.sum_nil, hslash,
      hletters _ hmem]
    omega
  | code hcontrol =>
    have hplain : ∀ d < 16, (Nat.digitChar d).utf8Size = 1 :=
      fun d hd => (plainChar_digitChar d hd).2
    have hlo := hplain (c.toNat % 16) (by omega)
    have hhi := hplain (c.toNat / 16) (by omega)
    have hzero : Char.utf8Size '0' = 1 := by decide
    have hu : Char.utf8Size 'u' = 1 := by decide
    simp only [utf8Len, List.map_cons, List.map_nil, List.sum_cons, List.sum_nil, hlo, hhi, hzero,
      hslash, hu]
    omega
  | plain hquote hne hprintable =>
    simp only [utf8Len, List.map_cons, List.map_nil, List.sum_cons, List.sum_nil]
    omega

theorem utf8Len_escape_le (cs : List Char) : utf8Len (escape cs) ≤ 6 * utf8Len cs := by
  induction cs with
  | nil => simp [escape, utf8Len]
  | cons c cs ih =>
    have hc := utf8Len_escapeChar_le c
    have hcons : escape (c :: cs) = escapeChar c ++ escape cs := List.flatMap_cons
    rw [hcons, utf8Len_append, utf8Len_cons]
    omega

theorem utf8Len_printString_le (s : String) : utf8Len (printString s) ≤ 6 * utf8Len s.toList + 2 := by
  have hescape := utf8Len_escape_le s.toList
  have hquote : Char.utf8Size '"' = 1 := by decide
  have hone : utf8Len ['"'] = 1 := by simp [utf8Len, hquote]
  unfold printString
  rw [utf8Len_cons, utf8Len_append, hquote, hone]
  omega

theorem utf8Len_le (cs : List Char) : utf8Len cs ≤ 4 * cs.length := by
  induction cs with
  | nil => simp [utf8Len]
  | cons c cs ih =>
    have hc := c.utf8Size_le_four
    rw [utf8Len_cons, List.length_cons]
    omega

theorem length_uuid (u : Uuid) : u.toString.toList.length ≤ 36 := by
  have hlength : (u.nibbles.map Uuid.hexChar).length = 32 := by simp [u.length_eq]
  simp only [Uuid.toString, Uuid.toChars, String.toList_ofList, List.length_append,
    List.length_cons, List.length_take, List.length_drop, hlength]
  omega

/-- The header of a destination that `open` accepts fits. -/
theorem recordLen_header_le {d : String} (hd : validDestination d = true) (o : Uuid) :
    recordLen (.header o d) ≤ recordLimit := by
  have hlen : Text.len d ≤ 256 := by
    simp only [validDestination, Bool.not_eq_true', Bool.or_eq_false_iff, decide_eq_false_iff_not]
      at hd
    omega
  have hdest := utf8Len_printString_le d
  have horigin := utf8Len_printString_le o.toString
  have hdigest := utf8Len_printString_le (String.ofList (List.replicate 64 '0'))
  have hzeros := utf8Len_le (String.ofList (List.replicate 64 '0')).toList
  have huuid := utf8Len_le o.toString.toList
  have hshort := length_uuid o
  -- the keys and the punctuation have a fixed length
  have hkeys : utf8Len (printString "destination") + utf8Len (printString "event") +
      utf8Len (printString "header") + utf8Len (printString "origin_id") +
      utf8Len (printString "sha256") ≤ 60 := by
    decide
  have hpunct : Char.utf8Size '{' = 1 ∧ Char.utf8Size '}' = 1 ∧ Char.utf8Size ':' = 1 ∧
      Char.utf8Size ',' = 1 := by
    decide
  obtain ⟨hopen, hclose, hcolon, hcomma⟩ := hpunct
  rw [utf8Len_toList] at hdest
  rw [String.toList_ofList, List.length_replicate] at hzeros
  have hnil : utf8Len [] = 0 := rfl
  simp only [recordLen, encodedLen, recordValue, Event.toValue, print, printFields,
    utf8Len_append, utf8Len_cons, hnil, hopen, hclose, hcolon, hcomma, String.toList_ofList]
    at hdigest hzeros ⊢
  -- what is left is the destination, the identifier and the digest
  unfold recordLimit Validation.maxBodyLen
  omega

/-! ### Cuts -/

section Cuts

variable {sha256 : List UInt8 → Digest}

/-- What is left of a line before its newline. -/
theorem newline_notMem_of_prefix {P : List UInt8} {e : Event} (hP : P <+: encodeLine sha256 e)
    (hne : P ≠ encodeLine sha256 e) : (10 : UInt8) ∉ P := by
  rw [encodeLine_eq] at hP hne
  have hbody : P <+: lineBody sha256 e := (List.prefix_concat_iff.mp hP).resolve_left hne
  exact fun hmem => newline_notMem_lineBody e (hbody.subset hmem)

/-- A cut leaves some whole lines and a part without a newline. -/
theorem cut_cases {es : List Event} {tail P : List UInt8} (htail : (10 : UInt8) ∉ tail)
    (hP : P <+: es.flatMap (encodeLine sha256) ++ tail) :
    ∃ k part, k ≤ es.length ∧ (10 : UInt8) ∉ part ∧
      P = (es.take k).flatMap (encodeLine sha256) ++ part := by
  induction es generalizing P with
  | nil => exact ⟨0, P, le_rfl, fun hmem => htail (hP.subset hmem), rfl⟩
  | cons e es ih =>
    rw [List.flatMap_cons, List.append_assoc] at hP
    rcases List.prefix_or_prefix_of_prefix hP (List.prefix_append _ _) with hP | ⟨rest, rfl⟩
    · by_cases hwhole : P = encodeLine sha256 e
      · exact ⟨1, [], by simp, by simp, by simp [hwhole]⟩
      · exact ⟨0, P, by simp, newline_notMem_of_prefix hP hwhole, by simp⟩
    · obtain ⟨k, part, hk, hpart, rfl⟩ := ih ((List.prefix_append_right_inj _).mp hP)
      exact ⟨k + 1, part, by simpa using hk, hpart, by simp⟩

/-- A file that does not end in a newline is refused, and nothing is appended to it. -/
theorem loadBytes_of_part {bytes part : List UInt8} (hlen : bytes.length ≤ journalLimit)
    {whole : List UInt8} (hbytes : bytes = whole ++ part) (hne : part ≠ [])
    (hpart : (10 : UInt8) ∉ part) (expected : Option String) (o : Uuid) (io : AppendIo) :
    loadBytes sha256 bytes expected o io = .error .corrupt ∧
      loadAppends sha256 bytes expected o = none := by
  have hends : bytes ≠ [] ∧ bytes.getLast? ≠ some 10 := by
    subst hbytes
    refine ⟨by simp [hne], ?_⟩
    rw [List.getLast?_append_of_ne_nil _ hne]
    intro hlast
    exact hpart (List.mem_of_getLast? hlast)
  unfold loadBytes loadAppends
  rw [if_neg (by omega), if_pos hends, if_neg (by omega), if_pos hends]
  exact ⟨rfl, rfl⟩

theorem JournalFile.Written.length_le {f : JournalFile} {bytes : List UInt8}
    (h : f.Written sha256 bytes) (hlen : f.len ≤ journalLimit) : bytes.length ≤ journalLimit := by
  obtain ⟨tail, rfl, htail⟩ := h
  rw [List.length_append, length_bytes]
  split at htail
  · obtain ⟨e, hroom, hprefix, -⟩ := htail
    have hle := hprefix.length_le
    rw [length_encodeLine] at hle
    omega
  · simp [htail, hlen]

theorem JournalFile.Written.cut {f : JournalFile} {bytes P : List UInt8}
    (h : f.Written sha256 bytes) (hP : P <+: bytes) :
    ∃ k part, k ≤ f.events.length ∧ (10 : UInt8) ∉ part ∧
      P = (f.events.take k).flatMap (encodeLine sha256) ++ part := by
  obtain ⟨tail, rfl, htail⟩ := h
  refine cut_cases ?_ hP
  split at htail
  · obtain ⟨e, -, hprefix, hne⟩ := htail
    exact newline_notMem_of_prefix hprefix hne
  · simp [htail]

end Cuts

/-! ### Every run of a client -/

/-- One input appends at most one record. -/
theorem ClientInv.step_events {d : String} {is : List ClientInput} {c : Client}
    {outs : List Output} (h : ClientInv d is c outs) (i : ClientInput) :
    (c.step d i).1.file.events = c.file.events ∨
      ∃ e, (c.step d i).1.file.events = c.file.events ++ [e] := by
  cases i with
  | crash => exact .inl rfl
  | reopen o io =>
    unfold Client.step
    cases hhandle : c.handle with
    | some hd => exact .inl rfl
    | none =>
      -- the load wrote nothing or a header
      have hd' : ∀ x ∈ some d, c.file.events = [] → x = d := by simp
      have hevents := (load_opened h.file hd' o io).2.2.1
      replace hevents := hevents.imp id
        fun ⟨hnil, hone⟩ => (⟨_, by rw [hone, hnil, List.nil_append]⟩ : ∃ e,
          (load c.file (some d) o io).2.events = c.file.events ++ [e])
      simp only
      revert hevents
      rcases load c.file (some d) o io with ⟨⟨err⟩ | ⟨j, b⟩, file⟩
      · exact id
      · exact id
  | call call =>
    unfold Client.step
    cases hhandle : c.handle with
    | none => exact .inl rfl
    | some hd =>
      rcases (step_sound hd c.file call).events with hevents | ⟨e, -, -, -, hevents⟩
      · exact .inl hevents
      · exact .inr ⟨e, hevents⟩

/-- **What a cut leaves was once the file.** -/
theorem held_before (d : String) (is : List ClientInput) (hids : (drawnIds is).Nodup) {k : Nat}
    (hk : k ≤ ((Client.machine d).exec {} is).1.file.events.length) :
    ∃ pre, pre <+: is ∧ ((Client.machine d).exec {} pre).1.file.events =
      ((Client.machine d).exec {} is).1.file.events.take k := by
  induction is using List.reverseRecOn with
  | nil => exact ⟨[], List.prefix_rfl, by simp [JournalFile.events]⟩
  | append_singleton is i ih =>
    have hpre : (drawnIds is).Nodup := by
      rw [drawnIds_append] at hids
      exact (List.nodup_append.mp hids).1
    have hevents := (clientInv_exec d is hpre).step_events i
    rw [Machine.exec_snoc] at hk ⊢
    by_cases hall : k = ((Client.machine d).extend ((Client.machine d).exec {} is)
        i).1.file.events.length
    · exact ⟨is ++ [i], List.prefix_rfl, by rw [hall, List.take_length, Machine.exec_snoc]⟩
    · rcases hevents with hevents | ⟨e, hevents⟩
      all_goals
        change ((Client.machine d).extend _ i).1.file.events = _ at hevents
        rw [hevents] at hk hall ⊢
      · obtain ⟨pre, hprefix, htake⟩ := ih hpre hk
        exact ⟨pre, hprefix.trans (List.prefix_append _ _), htake⟩
      · rw [List.length_append, List.length_singleton] at hk hall
        obtain ⟨pre, hprefix, htake⟩ := ih hpre (by omega)
        exact ⟨pre, hprefix.trans (List.prefix_append _ _),
          by rw [htake, List.take_append_of_le_length (by omega)]⟩

/-- A file of whole records: read as they stand, or refused where one of them is nested too
deep. -/
theorem loadBytes_whole (sha256 : List UInt8 → Digest) {d : String} (hd : validDestination d = true)
    {f : JournalFile} (hf : FileInv d f) (o : Uuid) {io : AppendIo}
    (hio : f.events = [] → io = .ok) :
    (∃ j, loadBytes sha256 (f.bytes sha256) (some d) o io = .ok (j, some d) ∧ Reads f.events j) ↔
      ∀ r ∈ queuedRequests f.events, (Value.obj r.arguments).depth ≤ argumentDepth := by
  -- The same records in a file of which nothing was torn.
  have hbytes : f.bytes sha256 = JournalFile.bytes sha256 { durable := f.events } := by
    simp [JournalFile.bytes, JournalFile.events]
  rw [hbytes, ← forall_shallow_iff]
  generalize hg : ({ durable := f.events } : JournalFile) = g
  have hevents : g.events = f.events := by simp [← hg, JournalFile.events]
  have htorn : g.torn = false := by simp [← hg]
  have hlen : g.len ≤ journalLimit := by simpa [JournalFile.len, hevents] using hf.len
  rw [← hevents] at hio ⊢
  rcases hf.events with hnil | ⟨t, hloads, hcap⟩
  · rw [← hevents] at hnil
    have hfits : recordLen (.header o d) ≤ recordLimit := recordLen_header_le hd o
    have hroom : ¬ (recordLen (.header o d) > recordLimit ∨
        ({} : JournalFile).len + recordLen (.header o d) > journalLimit) := by
      simp only [JournalFile.len, JournalFile.events, List.append_nil, List.map_nil, List.sum_nil]
      unfold recordLimit Validation.maxBodyLen at *
      unfold journalLimit
      omega
    have hload : loadBytes sha256 (g.bytes sha256) (some d) o io =
        .ok ((Loading.start o).journal, some d) := by
      rw [bytes_eq_nil.mpr hnil, hio hnil]
      simp only [loadBytes, List.length_nil, Nat.not_lt_zero, gt_iff_lt, if_false, ne_eq,
        not_true_eq_false, false_and, fileLines, if_true, applyLines]
      simp only [Journal.append, Loading.start, Bool.false_eq_true, if_false, if_neg hroom]
    rw [hnil]
    exact ⟨fun _ => by simp, fun _ => ⟨_, hload, reads_start o⟩⟩
  · rw [← hevents] at hloads
    constructor
    · rintro ⟨j, hj, -⟩ e he
      by_contra hdeep
      rw [loadBytes_of_deep hloads hlen he hdeep o io] at hj
      cases hj
    · intro hshallow
      refine ⟨t.journal, ?_, hloads.reads⟩
      rw [loadBytes_bytes htorn hshallow,
        load_of_loadsTo hloads htorn hlen hcap (by simp) o io]

/-- **Torn tails.**  For every file that a run of a client can leave and every prefix of its bytes:

1. a prefix that ends after the `k`-th record holds what the file held earlier in the run.  It loads
   to the state of exactly these records if and only if none of the requests among them is nested
   deeper than the reader goes (an empty file where its header can be written);
2. every other prefix is refused as corrupt, and nothing is appended to it. -/
theorem loadBytes_truncated (sha256 : List UInt8 → Digest) (d : String)
    (hd : validDestination d = true) (is : List ClientInput) (hids : (drawnIds is).Nodup)
    {B P : List UInt8} (hB : ((Client.machine d).exec {} is).1.file.Written sha256 B)
    (hP : P <+: B) :
    (∀ k ≤ ((Client.machine d).exec {} is).1.file.events.length,
      P = (((Client.machine d).exec {} is).1.file.events.take k).flatMap (encodeLine sha256) →
      (∃ pre, pre <+: is ∧ ((Client.machine d).exec {} pre).1.file.events =
        ((Client.machine d).exec {} is).1.file.events.take k) ∧
      ∀ o io, (k = 0 → io = .ok) →
        ((∃ j, loadBytes sha256 P (some d) o io = .ok (j, some d) ∧
            Reads (((Client.machine d).exec {} is).1.file.events.take k) j) ↔
          ∀ r ∈ queuedRequests (((Client.machine d).exec {} is).1.file.events.take k),
            (Value.obj r.arguments).depth ≤ argumentDepth)) ∧
    ((∀ k ≤ ((Client.machine d).exec {} is).1.file.events.length,
        P ≠ (((Client.machine d).exec {} is).1.file.events.take k).flatMap (encodeLine sha256)) →
      ∀ o io, loadBytes sha256 P (some d) o io = .error .corrupt ∧
        loadAppends sha256 P (some d) o = none) := by
  have hlen := (clientInv_exec d is hids).file.len
  constructor
  · intro k hk hcut
    -- the records up to the cut are those of the file after an earlier step
    obtain ⟨pre, hprefix, htake⟩ := held_before d is hids hk
    refine ⟨⟨pre, hprefix, htake⟩, ?_⟩
    intro o io hio
    have hpre : (drawnIds pre).Nodup := by
      obtain ⟨more, rfl⟩ := hprefix
      rw [drawnIds_append] at hids
      -- what was drawn by then was drawn once
      exact (List.nodup_append.mp hids).1
    have hfile := (clientInv_exec d pre hpre).file
    have hempty : ((Client.machine d).exec {} pre).1.file.events = [] → io = .ok := by
      intro hnil
      rw [htake, List.take_eq_nil_iff] at hnil
      refine hio (hnil.elim id fun hnil => ?_)
      simpa [hnil] using hk
    rw [hcut, ← htake]
    exact loadBytes_whole sha256 hd hfile o hempty
  · intro hnone o io
    obtain ⟨k, part, hk, hpart, hcut⟩ := hB.cut hP
    -- a part that is not empty is a line without its end
    have hne : part ≠ [] := by
      rintro rfl
      exact hnone k hk (by simpa using hcut)
    exact loadBytes_of_part (hP.length_le.trans (hB.length_le hlen)) hcut hne hpart (some d) o io

/-- The file of one message, cut in the middle of its second record. -/
theorem loadBytes_truncated_firstReplay :
    ∃ B P : List UInt8, P <+: B ∧ P ≠ [] ∧
      ((Client.machine "hub").exec {} firstReplay).1.file.Written zeroDigest B ∧
      (∃ j, loadBytes zeroDigest P (some "hub") (Uuid.ofNat 9) .ok = .ok (j, some "hub") ∧
        Reads (((Client.machine "hub").exec {} firstReplay).1.file.events.take 2) j) := by
  obtain ⟨-, htorn, hlength, -⟩ := firstReplay_run
  have hwritten : ((Client.machine "hub").exec {} firstReplay).1.file.Written zeroDigest
      (((Client.machine "hub").exec {} firstReplay).1.file.bytes zeroDigest) :=
    ⟨[], by simp, by simp [htorn]⟩
  have hprefix : (((Client.machine "hub").exec {} firstReplay).1.file.events.take 2).flatMap
      (encodeLine zeroDigest) <+:
        ((Client.machine "hub").exec {} firstReplay).1.file.bytes zeroDigest := by
    refine ⟨(((Client.machine "hub").exec {} firstReplay).1.file.events.drop 2).flatMap
      (encodeLine zeroDigest), ?_⟩
    rw [← List.flatMap_append, List.take_append_drop, JournalFile.bytes]
  refine ⟨_, _, hprefix, ?_, hwritten, ?_⟩
  · rw [ne_eq, flatMap_encodeLine_eq_nil, List.take_eq_nil_iff, ← List.length_eq_zero_iff, hlength]
    decide
  · refine (((loadBytes_truncated zeroDigest "hub" (by decide) firstReplay (by decide) hwritten
      hprefix).1 2 (by omega) rfl).2 (Uuid.ofNat 9) .ok (fun _ => rfl)).mpr ?_
    intro r hr
    exact firstReplay_shallow (((List.take_sublist 2 _).filterMap _).subset hr)

/-- The whole file of one message with deep metadata does not load. -/
theorem loadBytes_truncated_deepEnqueue :
    ∃ B P : List UInt8, P <+: B ∧
      ((Client.machine "hub").exec {} deepEnqueue).1.file.Written zeroDigest B ∧
      P = (((Client.machine "hub").exec {} deepEnqueue).1.file.events.take 2).flatMap
        (encodeLine zeroDigest) ∧
      loadBytes zeroDigest P (some "hub") (Uuid.ofNat 9) .ok = .error .corrupt := by
  obtain ⟨-, -, -, htorn, hlength⟩ := deepEnqueue_retained
  refine ⟨_, _, List.prefix_rfl, ⟨[], by rw [List.append_nil], by simp [htorn]⟩, ?_,
    deepEnqueue_corrupt⟩
  rw [List.take_of_length_le (by omega), JournalFile.bytes]

end AgentHub.Outbox
