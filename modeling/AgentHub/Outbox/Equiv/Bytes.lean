import AgentHub.Outbox.Bytes
import AgentHub.Outbox.Equiv.Client
import AgentHub.Outbox.Equiv.Request
import AgentHub.Json.Equiv.RoundTrip

/-!
# What the journal reader makes of the journal writer's bytes

`decodeLine_encodeLine`: a record is read back from its line when it is nested within the reader's
limit, which for a retained request means that its arguments are nested at most `argumentDepth`
deep.  `decodeLine_of_deep`: a deeper one is unreadable.  From these, `loadBytes_bytes` says that
loading the bytes is loading the events, and `loadBytes_iff` when the reader accepts the file a
writer left.
-/

namespace AgentHub.Outbox

open AgentHub.Json AgentHub.Validation

/-! ### Records -/

theorem asU64_natCast {n : Nat} (h : n < 2 ^ 64) : (Value.int n).asU64 = some n := by
  have hrange : 0 ≤ (n : Int) ∧ (n : Int) < 2 ^ 64 := ⟨Int.natCast_nonneg n, Int.ofNat_lt.mpr h⟩
  simp only [Value.asU64]
  rw [if_pos hrange, Int.toNat_natCast]

theorem readUuid_of_get {m : Fields} {key : String} {u : Uuid}
    (h : m.get key = some (.str u.toString)) : readUuid m key = some u := by
  simp [readUuid, h, Value.asStr, Uuid.parse_toString]

theorem readU64_of_get {m : Fields} {key : String} {x : UInt64}
    (h : m.get key = some (.int x.toNat)) : readU64 m key = some x := by
  unfold readU64
  rw [h, Option.bind_some, asU64_natCast x.toNat_lt, Option.map_some, UInt64.ofNat_toNat]

theorem readText_of_get {m : Fields} {key t : String} (h : m.get key = some (.str t)) :
    readText m key = some t := by
  simp [readText, h, Value.asStr]

theorem Operation.ofStr_asStr (o : Operation) : Operation.ofStr o.asStr = some o := by
  cases o <;> decide

theorem ClientSurface.ofStr_asStr (s : ClientSurface) : ClientSurface.ofStr s.asStr = some s := by
  cases s <;> decide

theorem Disposition.ofStr_asStr (x : Disposition) : Disposition.ofStr x.asStr = some x := by
  cases x <;> decide

theorem ReplayRequest.ofValue_toValue (r : ReplayRequest) :
    ReplayRequest.ofValue r.toValue = some r := by
  obtain ⟨id, origin, seq, created, expires, op, surface, args⟩ := r
  unfold ReplayRequest.ofValue ReplayRequest.toValue fieldsOf
  simp only [List.length_cons, List.length_nil, if_true, Option.bind_eq_bind, Option.bind_some]
  rw [readUuid_of_get (u := id) rfl, readUuid_of_get (u := origin) rfl,
    readU64_of_get (x := seq) rfl, readU64_of_get (x := created) rfl,
    readU64_of_get (x := expires) rfl, readText_of_get (t := op.asStr) rfl,
    readText_of_get (t := surface.asStr) rfl]
  simp only [Option.bind_some, Operation.ofStr_asStr, ClientSurface.ofStr_asStr]
  rfl

theorem Event.ofValue_toValue (e : Event) : Event.ofValue e.toValue = some e := by
  cases e with
  | header o d =>
    simp [Event.ofValue, Event.toValue, fieldsOf, readUuid, readText, Fields.get,
      List.lookup_cons, List.lookup_nil, Value.asStr, Uuid.parse_toString]
  | queued r =>
    simp [Event.ofValue, Event.toValue, fieldsOf, readText, Fields.get,
      List.lookup_cons, Value.asStr, ReplayRequest.ofValue_toValue]
  | attempted id =>
    simp [Event.ofValue, Event.toValue, fieldsOf, readUuid, readText, Fields.get,
      List.lookup_cons, List.lookup_nil, Value.asStr, Uuid.parse_toString]
  | settled id x =>
    simp [Event.ofValue, Event.toValue, fieldsOf, readUuid, readText, Fields.get,
      List.lookup_cons, List.lookup_nil, Value.asStr, Uuid.parse_toString, Disposition.ofStr_asStr]

theorem readRecord_recordValue (e : Event) (digest : String) :
    readRecord (recordValue e digest) = some (e, digest) := by
  simp [readRecord, recordValue, fieldsOf, readText, Fields.get, List.lookup_cons,
    Value.asStr, Event.ofValue_toValue]

/-! ### Nesting

A retained request sits in three objects: the record, the event and the request. -/

/-- How deep the arguments of a request may be nested for its record to be read back. -/
def argumentDepth : Nat := maxDepth - 3

/-- The arguments of a retained request are nested within what the reader accepts. -/
def Event.shallow : Event → Prop
  | .queued r => (Value.obj r.arguments).depth ≤ argumentDepth
  | _ => True

theorem depth_recordValue_queued (r : ReplayRequest) (digest : String) :
    (recordValue (.queued r) digest).depth = (Value.obj r.arguments).depth + 3 := by
  simp [recordValue, Event.toValue, ReplayRequest.toValue, Value.depth, Value.depthFields]

theorem depth_recordValue_le_iff (e : Event) (digest : String) :
    (recordValue e digest).depth ≤ maxDepth ↔ e.shallow := by
  cases e with
  | queued r =>
    rw [depth_recordValue_queued]
    unfold Event.shallow argumentDepth maxDepth
    omega
  | header o d =>
    simp [recordValue, Event.toValue, Event.shallow, Value.depth, Value.depthFields, maxDepth]
  | attempted id =>
    simp [recordValue, Event.toValue, Event.shallow, Value.depth, Value.depthFields, maxDepth]
  | settled id x =>
    simp [recordValue, Event.toValue, Event.shallow, Value.depth, Value.depthFields, maxDepth]

/-! ### Lengths -/

theorem utf8Len_append (a b : List Char) : utf8Len (a ++ b) = utf8Len a + utf8Len b := by
  simp [utf8Len]

theorem utf8Len_cons (c : Char) (cs : List Char) : utf8Len (c :: cs) = c.utf8Size + utf8Len cs := by
  simp [utf8Len]

/-- A plain character is written as it is, in one byte. -/
def PlainChar (c : Char) : Prop := escapeChar c = [c] ∧ c.utf8Size = 1

theorem plainChar_digitChar : ∀ d < 16, PlainChar (Nat.digitChar d) := by
  unfold PlainChar
  decide

theorem utf8Len_printString {s : String} (h : ∀ c ∈ s.toList, PlainChar c) :
    utf8Len (printString s) = s.toList.length + 2 := by
  have hescape : ∀ cs : List Char, (∀ c ∈ cs, PlainChar c) → utf8Len (escape cs) = cs.length := by
    intro cs hcs
    induction cs with
    | nil => rfl
    | cons c cs ih =>
      obtain ⟨hc, hcs⟩ := List.forall_mem_cons.mp hcs
      have hcons : escape (c :: cs) = escapeChar c ++ escape cs := List.flatMap_cons
      rw [hcons, utf8Len_append, ih hcs, hc.1]
      simp [utf8Len, hc.2, Nat.add_comm]
  have hquote : Char.utf8Size '"' = 1 := by decide
  unfold printString
  rw [utf8Len_cons, utf8Len_append, hescape _ h, utf8Len_cons, hquote]
  simp [utf8Len]
  omega

/-- The length of a record depends on its digest only through the digest's own length. -/
theorem encodedLen_recordValue (e : Event) {s t : String}
    (h : utf8Len (printString s) = utf8Len (printString t)) :
    encodedLen (recordValue e s) = encodedLen (recordValue e t) := by
  simp only [encodedLen, recordValue, print, printFields, utf8Len_append, utf8Len_cons, h]

theorem utf8Len_hex (d : Digest) :
    utf8Len (printString d.hex) =
      utf8Len (printString (String.ofList (List.replicate 64 '0'))) := by
  have hlength : d.hex.toList.length = 64 := by
    simp [Digest.hex, List.length_flatMap, d.length_eq]
  rw [utf8Len_printString, utf8Len_printString]
  · rw [hlength]
    simp
  · intro c hc
    obtain rfl : c = '0' := by simpa using hc
    exact plainChar_digitChar 0 (by omega)
  · intro c hc
    simp only [Digest.hex, String.toList_ofList, List.mem_flatMap, List.mem_cons,
      List.not_mem_nil, or_false] at hc
    obtain ⟨b, -, hc⟩ := hc
    have hb := b.toNat_lt
    rcases hc with rfl | rfl
    · exact plainChar_digitChar _ (by omega)
    · exact plainChar_digitChar _ (by omega)

section Bytes

variable {sha256 : List UInt8 → Digest}

/-- A line without its newline. -/
def lineBody (sha256 : List UInt8 → Digest) (e : Event) : List UInt8 :=
  toVec (recordValue e (digestHex sha256 (toVec e.serialize)))

theorem encodeLine_eq (e : Event) : encodeLine sha256 e = lineBody sha256 e ++ [10] := rfl

theorem length_lineBody (e : Event) : (lineBody sha256 e).length = recordLen e - 1 := by
  unfold lineBody recordLen digestHex
  rw [length_toVec, encodedLen_recordValue e (utf8Len_hex _), Nat.add_sub_cancel]

theorem length_encodeLine (e : Event) : (encodeLine sha256 e).length = recordLen e := by
  rw [encodeLine_eq, List.length_append, length_lineBody]
  simp [recordLen]

theorem length_bytes (f : JournalFile) : (f.bytes sha256).length = f.len := by
  simp [JournalFile.bytes, JournalFile.len, List.length_flatMap, length_encodeLine]

theorem lineBody_ne_nil (e : Event) : lineBody sha256 e ≠ [] := by
  intro hnil
  have hchars := List.flatMap_eq_nil_iff.mp hnil
  have hpos := print_length_pos (recordValue e (digestHex sha256 (toVec e.serialize)))
  cases hprint : print (recordValue e (digestHex sha256 (toVec e.serialize))) with
  | nil => simp [hprint] at hpos
  | cons c cs =>
    rw [hprint] at hchars
    exact String.utf8EncodeChar_ne_nil (hchars c List.mem_cons_self)

theorem newline_notMem_lineBody (e : Event) : (10 : UInt8) ∉ lineBody sha256 e :=
  newline_notMem_toVec _

/-! ### Lines -/

/-- **A record is read back from its line** where it fits the reader. -/
theorem decodeLine_encodeLine {e : Event} (hshallow : e.shallow) :
    decodeLine sha256 (lineBody sha256 e) =
      if recordLen e - 1 > recordLimit then .error .corrupt else .ok e := by
  have hdepth := (depth_recordValue_le_iff e (digestHex sha256 (toVec e.serialize))).mpr hshallow
  have hparse : fromSlice (lineBody sha256 e) = .ok (recordValue e _) := fromSlice_toVec _ hdepth
  unfold decodeLine
  rw [if_neg (lineBody_ne_nil e), length_lineBody, hparse]
  simp only [readRecord_recordValue, ne_eq, not_true_eq_false, if_false]

/-- A record nested too deep is not. -/
theorem decodeLine_of_deep {e : Event} (hdeep : ¬ e.shallow) :
    decodeLine sha256 (lineBody sha256 e) = .error .corrupt := by
  have hdepth := mt (depth_recordValue_le_iff e (digestHex sha256 (toVec e.serialize))).mp hdeep
  have hparse : fromSlice (lineBody sha256 e) = .error .recursionLimit :=
    fromSlice_toVec_of_lt _ (by omega)
  unfold decodeLine
  rw [if_neg (lineBody_ne_nil e), hparse]
  split <;> rfl

/-- The lines of a file are those that were appended. -/
theorem fileLines_flatMap (es : List Event) :
    fileLines (es.flatMap (encodeLine sha256)) = es.map (lineBody sha256) := by
  cases es using List.reverseRecOn with
  | nil => rfl
  | append_singleton es e =>
    have hbytes : (es ++ [e]).flatMap (encodeLine sha256) =
        es.flatMap (encodeLine sha256) ++ lineBody sha256 e ++ [10] := by
      simp [encodeLine_eq]
    have hsplit : ∀ es : List Event,
        (es.flatMap (encodeLine sha256) ++ lineBody sha256 e).splitOn 10 =
          es.map (lineBody sha256) ++ [lineBody sha256 e] := by
      intro es
      induction es with
      | nil =>
        simpa using List.splitOn_eq_singleton (newline_notMem_lineBody e)
      | cons e' es ih =>
        have hcons : (e' :: es).flatMap (encodeLine sha256) ++ lineBody sha256 e =
            lineBody sha256 e' ++ 10 :: (es.flatMap (encodeLine sha256) ++ lineBody sha256 e) := by
          simp [encodeLine_eq]
        rw [hcons, List.splitOn_append_cons_self_of_not_mem (newline_notMem_lineBody e'), ih]
        rfl
    unfold fileLines
    rw [hbytes, if_neg (by simp), if_pos (by simp), List.dropLast_concat, hsplit]
    simp

theorem getLast?_flatMap {es : List Event} (hne : es ≠ []) :
    (es.flatMap (encodeLine sha256)).getLast? = some 10 := by
  cases es using List.reverseRecOn with
  | nil => exact absurd rfl hne
  | append_singleton es e => simp [encodeLine_eq]

theorem flatMap_encodeLine_eq_nil {es : List Event} :
    es.flatMap (encodeLine sha256) = [] ↔ es = [] := by
  cases es <;> simp [encodeLine_eq]

/-- The loop over readable lines is the loop over their events. -/
theorem applyLines_map {expected : Option String} (es : List Event) (hes : ∀ e ∈ es, e.shallow)
    (s : Loading) :
    applyLines sha256 expected s (es.map (lineBody sha256)) = applyEvents expected s es := by
  induction es generalizing s with
  | nil => rfl
  | cons e es ih =>
    obtain ⟨he, hes⟩ := List.forall_mem_cons.mp hes
    simp only [List.map_cons, applyLines, applyEvents, applyEvent, decodeLine_encodeLine he]
    by_cases hbig : recordLen e - 1 > recordLimit
    · simp only [if_pos hbig]
      rfl
    · simp only [if_neg hbig]
      show (applyRecord expected s e).bind _ = (applyRecord expected s e).bind _
      cases applyRecord expected s e with
      | error err => rfl
      | ok t => exact ih hes t

/-- The loop stops at the first line that is nested too deep. -/
theorem applyLines_of_deep {expected : Option String} {s t : Loading} {es more : List Event}
    {e : Event} (hes : ∀ e ∈ es, e.shallow) (hload : applyEvents expected s es = .ok t)
    (hdeep : ¬ e.shallow) :
    applyLines sha256 expected s ((es ++ e :: more).map (lineBody sha256)) = .error .corrupt := by
  induction es generalizing s with
  | nil =>
    simp only [List.nil_append, List.map_cons, applyLines, decodeLine_of_deep hdeep]
    rfl
  | cons e' es ih =>
    obtain ⟨he', hes⟩ := List.forall_mem_cons.mp hes
    simp only [applyEvents, applyEvent] at hload
    simp only [List.cons_append, List.map_cons, applyLines, decodeLine_encodeLine he']
    by_cases hbig : recordLen e' - 1 > recordLimit
    · simp only [if_pos hbig, bind, Except.bind] at hload
      cases hload
    · simp only [if_neg hbig, bind, Except.bind] at hload ⊢
      cases happly : applyRecord expected s e' with
      | error err => simp [happly] at hload
      | ok u =>
        simp only [happly] at hload ⊢
        exact ih hes hload

/-! ### Files -/

theorem bytes_eq_nil {f : JournalFile} : f.bytes sha256 = [] ↔ f.events = [] :=
  flatMap_encodeLine_eq_nil

theorem bytes_ends {f : JournalFile} :
    ¬ (f.bytes sha256 ≠ [] ∧ (f.bytes sha256).getLast? ≠ some 10) := by
  rintro ⟨hne, hlast⟩
  exact hlast (getLast?_flatMap (mt bytes_eq_nil.mpr hne))

/-- What an append answers, and what it leaves in memory, depends on the length of the file only. -/
theorem append_congr {f g : JournalFile} (hlen : f.len = g.len) (j : Journal) (e : Event)
    (io : AppendIo) :
    (j.append f e io).1 = (j.append g e io).1 ∧ (j.append f e io).2.1 = (j.append g e io).2.1 := by
  unfold Journal.append
  rw [hlen]
  by_cases hpoisoned : j.poisoned = true
  · simp only [if_pos hpoisoned, and_self]
  · simp only [if_neg hpoisoned]
    by_cases hfits : recordLen e > recordLimit ∨ g.len + recordLen e > journalLimit
    · cases io <;> simp only [if_pos hfits, and_self]
    · cases io <;> simp only [if_neg hfits, and_self]

/-- `load` and `loadBytes` make the same of the append of a header. -/
theorem headerOutcome_congr (a b : Except OutboxError Unit × Journal × JournalFile) (d : String) :
    a.1 = b.1 → a.2.1 = b.2.1 →
    (match a with
      | (.error error, _, _) => .error error
      | (.ok (), journal, _) => .ok (journal, some d)) =
    (match b with
      | (.error error, _, file) =>
        ((.error error : Except OutboxError (Journal × Option String)), file)
      | (.ok (), journal, file) => (.ok (journal, some d), file)).1 := by
  intro hanswer hjournal
  obtain ⟨_ | _, _, _⟩ := a <;> obtain ⟨_ | _, _, _⟩ := b <;> simp_all

/-- **Loading the bytes is loading the events**, where every record can be read. -/
theorem loadBytes_bytes {f : JournalFile} (htorn : f.torn = false)
    (hshallow : ∀ e ∈ f.events, e.shallow) (expected : Option String) (o : Uuid) (io : AppendIo) :
    loadBytes sha256 (f.bytes sha256) expected o io = (load f expected o io).1 := by
  unfold loadBytes load
  rw [length_bytes]
  -- both readers look at the length, the last byte and the records in this order
  by_cases hlen : f.len > journalLimit
  · rw [if_pos hlen, if_pos hlen]
  rw [if_neg hlen, if_neg hlen, if_neg bytes_ends, htorn, if_neg Bool.false_ne_true]
  have hlines : fileLines (f.bytes sha256) = f.events.map (lineBody sha256) := fileLines_flatMap _
  rw [hlines, applyLines_map _ hshallow]
  cases happly : applyEvents expected (Loading.start o) f.events with
  | error err => rfl
  | ok s =>
    simp only
    cases hseen : s.headerSeen with
    | true =>
      simp only [if_true]
      split <;> rfl
    | false =>
      simp only [Bool.false_eq_true, if_false, ne_eq, bytes_eq_nil]
      have hread : f.readBack.events = f.events := by simp
      rw [hread]
      -- only an empty file makes the reader write
      by_cases hnil : f.events = []
      · simp only [hnil, not_true_eq_false, if_false]
        cases expected with
        | none => rfl
        | some destination =>
          have hlen0 : ({} : JournalFile).len = f.readBack.len := by
            simp [JournalFile.len, hread, hnil]
            rfl
          obtain ⟨hanswer, hjournal⟩ :=
            append_congr hlen0 s.journal (.header o destination) io
          exact headerOutcome_congr _ _ destination hanswer hjournal
      · rw [if_pos hnil, if_pos hnil]

/-- A file with a record that is nested too deep does not load. -/
theorem loadBytes_of_deep {d : String} {f : JournalFile} {s : Loading}
    (hloads : LoadsTo d f.events s) (hlen : f.len ≤ journalLimit) {e : Event} (he : e ∈ f.events)
    (hdeep : ¬ e.shallow) (o : Uuid) (io : AppendIo) :
    loadBytes sha256 (f.bytes sha256) (some d) o io = .error .corrupt := by
  classical
  -- The first such record is the one the loop stops at.
  have hfind : (f.events.find? fun e => !decide e.shallow).isSome = true :=
    List.find?_isSome.mpr ⟨e, he, by simpa using hdeep⟩
  obtain ⟨first, hfirst⟩ := Option.isSome_iff_exists.mp hfind
  obtain ⟨hdeep', es, more, hevents, hes⟩ := List.find?_eq_some_iff_append.mp hfirst
  have hstart : applyEvents (some d) (Loading.start o) f.events = .ok s :=
    hloads.applyEvents_start o (by simp)
  rw [hevents, applyEvents_append] at hstart
  cases happly : applyEvents (some d) (Loading.start o) es with
  | error err => simp [happly, Except.bind] at hstart
  | ok t =>
    have hlines : fileLines (f.bytes sha256) = (es ++ first :: more).map (lineBody sha256) := by
      rw [← hevents]
      exact fileLines_flatMap _
    unfold loadBytes
    rw [length_bytes, if_neg (by omega), if_neg bytes_ends, hlines,
      applyLines_of_deep (fun e he => by simpa using hes e he) happly (by simpa using hdeep')]

end Bytes

/-! ### Every run of a client -/

/-- A process has the journal open and no append of its own has failed. -/
def Client.Intact (c : Client) : Prop :=
  ∃ hd, c.handle = some hd ∧ hd.journal.poisoned = false

/-- A request that was retained is on the file, and the journal is intact. -/
theorem Client.intact_of_enqueued {d : String} {c : Client} {i : ClientInput} {r : ReplayRequest}
    (h : .enqueued (.ok r) ∈ (c.step d i).2) :
    (c.step d i).1.Intact ∧ r ∈ queuedRequests (c.step d i).1.file.events := by
  cases i with
  | crash => simp [Client.step] at h
  | reopen o io =>
    exfalso
    revert h
    simp only [Client.step]
    cases c.handle with
    | some hd => simp
    | none => rcases load c.file (some d) o io with ⟨_ | ⟨j, b⟩, file⟩ <;> simp
  | call call =>
    simp only [Client.step] at h ⊢
    cases hhandle : c.handle with
    | none => simp [hhandle] at h
    | some hd =>
      simp only [hhandle] at h ⊢
      have hstep := step_sound hd c.file call
      have hqueued := hstep.mem_of_enqueued h
      refine ⟨⟨_, rfl, hstep.clean_of_enqueued h⟩, ?_⟩
      rw [mem_queuedRequests]
      exact List.mem_append_left _ hqueued

/-- Loading the bytes of an intact journal: what loading the events gives, or `corrupt`. -/
theorem loadBytes_of_intact (sha256 : List UInt8 → Digest) {d : String} {is : List ClientInput}
    {c : Client} {outs : List Output} (hinv : ClientInv d is c outs) (hintact : c.Intact)
    (o : Uuid) (io : AppendIo) :
    ((∀ e ∈ c.file.events, e.shallow) →
      ∃ j, loadBytes sha256 (c.file.bytes sha256) (some d) o io = .ok (j, some d)) ∧
    ((∃ e ∈ c.file.events, ¬ e.shallow) →
      loadBytes sha256 (c.file.bytes sha256) (some d) o io = .error .corrupt) := by
  obtain ⟨hd, hopen, hclean⟩ := hintact
  obtain ⟨s, hs⟩ := hinv.handle hd hopen
  have htorn := (hs.owned.clean hclean).2
  have hloads : LoadsTo d c.file.events s := by
    rw [hs.owned.events_of_clean hclean]
    exact hs.owned.loads
  constructor
  · intro hshallow
    rw [loadBytes_bytes htorn hshallow,
      load_of_loadsTo hloads htorn hs.owned.len hs.owned.capacity (by simp)]
    exact ⟨_, rfl⟩
  · rintro ⟨e, he, hdeep⟩
    exact loadBytes_of_deep hloads hs.owned.len he hdeep o io

theorem forall_shallow_iff {es : List Event} :
    (∀ e ∈ es, e.shallow) ↔
      ∀ r ∈ queuedRequests es, (Value.obj r.arguments).depth ≤ argumentDepth := by
  constructor
  · intro h r hr
    exact h _ (mem_queuedRequests.mp hr)
  · intro h e he
    cases e with
    | queued r => exact h r (mem_queuedRequests.mpr he)
    | _ => trivial

/-- **When the reader accepts what the writer wrote.**  An `enqueue` that returns leaves its
request on the file and the journal intact.  At every point of every run where the journal is
intact, loading the bytes of its file for the same destination is neither `corrupt` nor
`capacity` exactly when the arguments of every request retained on it are nested at most
`argumentDepth` deep. -/
theorem loadBytes_iff (sha256 : List UInt8 → Digest) (d : String) (is : List ClientInput)
    (hids : (drawnIds is).Nodup) :
    (∀ i r, .enqueued (.ok r) ∈ (((Client.machine d).exec {} is).1.step d i).2 →
      (((Client.machine d).exec {} is).1.step d i).1.Intact ∧
      r ∈ queuedRequests (((Client.machine d).exec {} is).1.step d i).1.file.events) ∧
    (((Client.machine d).exec {} is).1.Intact → ∀ o io,
      ((loadBytes sha256 (((Client.machine d).exec {} is).1.file.bytes sha256) (some d) o io ≠
          .error .corrupt ∧
        loadBytes sha256 (((Client.machine d).exec {} is).1.file.bytes sha256) (some d) o io ≠
          .error .capacity) ↔
      ∀ r ∈ queuedRequests ((Client.machine d).exec {} is).1.file.events,
        (Value.obj r.arguments).depth ≤ argumentDepth)) := by
  refine ⟨fun i r h => Client.intact_of_enqueued h, ?_⟩
  intro hintact o io
  obtain ⟨hok, hcorrupt⟩ :=
    loadBytes_of_intact sha256 (clientInv_exec d is hids) hintact o io
  rw [← forall_shallow_iff]
  constructor
  · rintro ⟨hread, -⟩
    by_contra hdeep
    push Not at hdeep
    exact hread (hcorrupt hdeep)
  · intro hshallow
    obtain ⟨j, hj⟩ := hok hshallow
    simp [hj]

theorem firstReplay_intact : ((Client.machine "hub").exec {} firstReplay).1.Intact := by
  obtain ⟨hd, hhd, hclean, -⟩ := firstReplay_handle
  exact ⟨hd, hhd, hclean⟩

/-- The message is nested within what the reader accepts. -/
theorem firstReplay_shallow {r : ReplayRequest}
    (h : r ∈ queuedRequests ((Client.machine "hub").exec {} firstReplay).1.file.events) :
    (Value.obj r.arguments).depth ≤ argumentDepth := by
  have hflat := List.all_eq_true.1 firstReplay_run.2.2.2 r h
  exact (of_decide_eq_true hflat).trans (by decide)

theorem length_zeroDigest : (List.replicate 32 (0 : UInt8)).length = 32 := List.length_replicate

/-- A digest for concrete runs. -/
def zeroDigest (_ : List UInt8) : Digest := ⟨List.replicate 32 0, length_zeroDigest⟩

theorem loadBytes_iff_firstReplay :
    loadBytes zeroDigest (((Client.machine "hub").exec {} firstReplay).1.file.bytes zeroDigest)
      (some "hub") (Uuid.ofNat 9) .ok ≠ .error .corrupt :=
  (((loadBytes_iff zeroDigest "hub" firstReplay (by decide)).2 firstReplay_intact
    (Uuid.ofNat 9) .ok).mpr fun _ => firstReplay_shallow).1

/-- Arrays nested `n` deep. -/
def nestedArrays : Nat → Value
  | 0 => .null
  | n + 1 => .arr [nestedArrays n]

/-- A message whose metadata is nested 124 deep. -/
def deepArguments : Fields :=
  [("body", .str "x"), ("metadata", .obj [("a", nestedArrays 123)]), ("recipient", .str "b"),
   ("sender", .str "a"), ("topic", .str "t")]

def deepEnqueue : List ClientInput :=
  [.reopen (Uuid.ofNat 1) .ok, .call (.enqueue .send .cli deepArguments 5 (Uuid.ofNat 2) .ok)]

/-- A request with the deep metadata is retained. -/
def Output.isDeep : Output → Bool
  | .enqueued (.ok r) => decide (r.arguments = deepArguments)
  | _ => false

theorem deepEnqueue_retained :
    ((Client.machine "hub").exec {} deepEnqueue).2.any Output.isDeep = true ∧
      ((Client.machine "hub").exec {} deepEnqueue).1.handle.any (fun hd =>
        hd.journal.poisoned = false) = true ∧
      ((queuedRequests ((Client.machine "hub").exec {} deepEnqueue).1.file.events).any
        fun r => argumentDepth < (Value.obj r.arguments).depth) = true ∧
      ((Client.machine "hub").exec {} deepEnqueue).1.file.torn = false ∧
      ((Client.machine "hub").exec {} deepEnqueue).1.file.events.length = 2 := by
  decide +kernel

theorem deepEnqueue_corrupt :
    loadBytes zeroDigest (((Client.machine "hub").exec {} deepEnqueue).1.file.bytes zeroDigest)
      (some "hub") (Uuid.ofNat 9) .ok = .error .corrupt := by
  obtain ⟨-, hopen, hdeep, -⟩ := deepEnqueue_retained
  obtain ⟨hd, hhd, hclean⟩ := (Option.any_eq_true _ _).mp hopen
  obtain ⟨r, hr, hr'⟩ := List.any_eq_true.mp hdeep
  have hinv := clientInv_exec "hub" deepEnqueue (by decide)
  refine (loadBytes_of_intact zeroDigest hinv ⟨hd, hhd, by simpa using hclean⟩ _ _).2
    ⟨.queued r, mem_queuedRequests.mp hr, ?_⟩
  simpa [Event.shallow] using hr'

/-- The writer takes a message that wedges the journal for every later reader. -/
theorem loadBytes_deepEnqueue :
    (∃ r, r.arguments = deepArguments ∧
      .enqueued (.ok r) ∈ ((Client.machine "hub").exec {} deepEnqueue).2) ∧
    loadBytes zeroDigest (((Client.machine "hub").exec {} deepEnqueue).1.file.bytes zeroDigest)
      (some "hub") (Uuid.ofNat 9) .ok = .error .corrupt := by
  refine ⟨?_, deepEnqueue_corrupt⟩
  obtain ⟨o, ho, hmatch⟩ := List.any_eq_true.mp deepEnqueue_retained.1
  cases o with
  | enqueued result =>
    cases result with
    | error err => simp [Output.isDeep] at hmatch
    | ok r => exact ⟨r, by simpa [Output.isDeep] using hmatch, ho⟩
  | _ => simp [Output.isDeep] at hmatch

end AgentHub.Outbox
