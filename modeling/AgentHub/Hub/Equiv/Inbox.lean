import AgentHub.Hub.Inbox
import AgentHub.Json.Equiv.RoundTrip

/-!
# Delivery of the inbox

`delivered` is what a lane's answers have handed out since the lane was last set back.  In every run
it is the notifications up to the lane's cursor that the lane lets through, in the order of the
stream (`inbox_delivery`).  `DeliveryInv` is the invariant: its clause about the call says that
what a call has collected is what lies between the cursor it read and the one it has reached.
-/

namespace AgentHub.Hub

open AgentHub.Json AgentHub.Paging

variable {lib : InboxLibrary} {agent : String}

/-! ### Keys of lanes -/

theorem jsonText_injective {v w : Value} (hv : v.depth ≤ maxDepth) (hw : w.depth ≤ maxDepth)
    (h : jsonText v = jsonText w) : v = w := by
  have hprint : print v = print w := String.ofList_injective h
  have hread := fromStr_print v hv
  rw [hprint, fromStr_print w hw] at hread
  exact (Except.ok.inj hread).symm

/-- The identity text of a lane names its tags, its thread and its topic. -/
def laneIdentity (agent : String) (filters : MessageFilters) : Value :=
  .arr [.str agent, .arr ((requiredTags filters).map .str), optionValue filters.threadId,
    optionValue filters.topic]

theorem depth_optionValue (s : Option String) : (optionValue s).depth = 0 := by
  cases s <;> rfl

theorem depth_laneIdentity (agent : String) (filters : MessageFilters) :
    (laneIdentity agent filters).depth ≤ maxDepth := by
  have hitems : Value.depthItems [.str agent, .arr ((requiredTags filters).map .str),
      optionValue filters.threadId, optionValue filters.topic] ≤ 1 := by
    refine (depthItems_le_iff _ _).2 ?_
    intro v hv
    simp only [List.mem_cons, List.not_mem_nil, or_false] at hv
    rcases hv with rfl | rfl | rfl | rfl
    · exact Nat.zero_le _
    · exact depth_texts _
    · exact (depth_optionValue _).trans_le (Nat.zero_le _)
    · exact (depth_optionValue _).trans_le (Nat.zero_le _)
  have hdepth : (laneIdentity agent filters).depth ≤ 2 := by
    rw [laneIdentity, Value.depth]
    exact Nat.succ_le_succ hitems
  exact hdepth.trans (by decide)

theorem optionValue_injective : Function.Injective optionValue := by
  intro s t h
  cases s <;> cases t <;> simp_all [optionValue]

theorem notificationCursorKey_ne (agent rest : String) :
    notificationCursorKey agent ≠ "bus:notify_filter_cursor:" ++ rest := by
  intro h
  have hplain : "bus:notify_cursor:" = "bus:notify_" ++ "cursor:" := by decide
  have hfilter : "bus:notify_filter_cursor:" = "bus:notify_" ++ "filter_cursor:" := by
    decide
  have hsplit : "bus:notify_" ++ "cursor:" ++ agent = "bus:notify_" ++ "filter_cursor:" ++ rest := by
    rw [← hplain, ← hfilter]
    exact h
  rw [String.append_assoc, String.append_assoc, String.append_right_inj] at hsplit
  have hhead := congrArg (fun s => s.toList.head?) hsplit
  simp at hhead

theorem inboxCursorKey_plain {filters : MessageFilters}
    (h : requiredTags filters = [] ∧ filters.threadId = none ∧ filters.topic = none) :
    inboxCursorKey lib agent filters = notificationCursorKey agent :=
  if_pos h

theorem inboxCursorKey_filtered {filters : MessageFilters}
    (h : ¬ (requiredTags filters = [] ∧ filters.threadId = none ∧ filters.topic = none)) :
    inboxCursorKey lib agent filters = "bus:notify_filter_cursor:" ++
      (agent ++ ":v1:" ++ lib.digest (jsonText (laneIdentity agent filters))) := by
  rw [inboxCursorKey, if_neg h, laneIdentity]
  simp only [String.append_assoc]

/-- Two lanes with one key ask for the same. -/
theorem laneMatches_eq_of_key_eq {f g : MessageFilters}
    (h : inboxCursorKey lib agent f = inboxCursorKey lib agent g) :
    laneMatches agent f = laneMatches agent g := by
  have hsame : requiredTags f = requiredTags g ∧ f.threadId = g.threadId ∧ f.topic = g.topic := by
    by_cases hf : requiredTags f = [] ∧ f.threadId = none ∧ f.topic = none
    · by_cases hg : requiredTags g = [] ∧ g.threadId = none ∧ g.topic = none
      · exact ⟨hf.1.trans hg.1.symm, hf.2.1.trans hg.2.1.symm, hf.2.2.trans hg.2.2.symm⟩
      · rw [inboxCursorKey_plain hf, inboxCursorKey_filtered hg] at h
        exact absurd h (notificationCursorKey_ne _ _)
    · by_cases hg : requiredTags g = [] ∧ g.threadId = none ∧ g.topic = none
      · rw [inboxCursorKey_filtered hf, inboxCursorKey_plain hg] at h
        exact absurd h.symm (notificationCursorKey_ne _ _)
      · rw [inboxCursorKey_filtered hf, inboxCursorKey_filtered hg, String.append_right_inj,
          String.append_right_inj] at h
        have hid := jsonText_injective (depth_laneIdentity _ _) (depth_laneIdentity _ _)
          (lib.digest_injective h)
        simp only [laneIdentity, Value.arr.injEq, List.cons.injEq, true_and, and_true] at hid
        obtain ⟨htags, hthread, htopic⟩ := hid
        refine ⟨List.map_injective_iff.2 ?_ htags, optionValue_injective hthread,
          optionValue_injective htopic⟩
        intro s t hst
        exact Value.str.inj hst
  funext m
  rw [laneMatches, laneMatches, hsame.1, hsame.2.1, hsame.2.2]

/-! ### A page -/

/-- The messages a lane lets through. -/
def laneMessages (lib : InboxLibrary) (agent : String) (filters : MessageFilters)
    (entries : List InboxEntry) : List Message :=
  (entries.map (InboxEntry.message lib)).filter (laneMatches agent filters)

theorem laneMessages_append (filters : MessageFilters) (xs ys : List InboxEntry) :
    laneMessages lib agent filters (xs ++ ys) =
      laneMessages lib agent filters xs ++ laneMessages lib agent filters ys := by
  simp [laneMessages]

theorem laneMessages_eq_of_key_eq {f g : MessageFilters}
    (h : inboxCursorKey lib agent f = inboxCursorKey lib agent g) :
    laneMessages lib agent f = laneMessages lib agent g := by
  funext entries
  rw [laneMessages, laneMessages, laneMatches_eq_of_key_eq h]

/-- The scan after some of the entries of a page. -/
def Scan.past (lib : InboxLibrary) (wanted : Message → Bool) (s : Scan) (front : List InboxEntry) :
    Scan where
  cursor := s.cursor
  cursorNow := (front.getLast?.map InboxEntry.id).getD s.cursorNow
  messages := s.messages ++ (front.map (InboxEntry.message lib)).filter wanted
  scanned := s.scanned + front.length

theorem Scan.past_cons (wanted : Message → Bool) (s : Scan) (e : InboxEntry)
    (front : List InboxEntry) :
    s.past lib wanted (e :: front) = (s.past lib wanted [e]).past lib wanted front := by
  cases front with
  | nil => simp [Scan.past]
  | cons e' front => simp [Scan.past, List.getLast?_cons_cons, List.filter_cons]; grind

/-- **A page is read from its start up to some entry.** -/
theorem Scan.page_eq_past (lib : InboxLibrary) (wanted : Message → Bool) (limit : Nat) (es : List InboxEntry) (s : Scan) :
    ∃ front, front <+: es ∧ s.page lib wanted limit es = s.past lib wanted front := by
  induction es generalizing s with
  | nil => exact ⟨[], List.nil_prefix, by simp [Scan.page, Scan.past]⟩
  | cons e es ih =>
    have hone : s.past lib wanted [e] = if wanted (e.message lib) then
        ⟨s.cursor, e.id, s.messages ++ [e.message lib], s.scanned + 1⟩
        else ⟨s.cursor, e.id, s.messages, s.scanned + 1⟩ := by
      by_cases hw : wanted (e.message lib) <;> simp [Scan.past, hw]
    obtain ⟨front, hfront, hpast⟩ := ih (s.past lib wanted [e])
    by_cases hw : wanted (e.message lib)
    · rw [if_pos hw] at hone
      by_cases hfull : (s.messages ++ [e.message lib]).length = limit
      · refine ⟨[e], (List.cons_prefix_cons).2 ⟨rfl, List.nil_prefix⟩, ?_⟩
        rw [hone]
        simp only [Scan.page, hw, if_true, if_pos hfull]
      · refine ⟨e :: front, (List.cons_prefix_cons).2 ⟨rfl, hfront⟩, ?_⟩
        rw [Scan.past_cons, ← hpast, hone]
        simp only [Scan.page, hw, if_true, if_neg hfull]
    · rw [if_neg hw] at hone
      refine ⟨e :: front, (List.cons_prefix_cons).2 ⟨rfl, hfront⟩, ?_⟩
      rw [Scan.past_cons, ← hpast, hone]
      simp only [Scan.page, if_neg hw]

/-! ### The invariant -/

/-- A cursor at the beginning, or at an entry. -/
def Reached (stream : List InboxEntry) (c : StreamId) : Prop :=
  c = StreamId.zero ∨ ∃ e ∈ stream, e.id = c

/-- The cursor under a key. -/
def InboxState.cursorAt (s : InboxState) (key : String) : StreamId :=
  (s.cursors key).getD StreamId.zero

/-- What a scan has collected lies between the cursor it began at and the one it has reached. -/
structure ScanInv (lib : InboxLibrary) (agent : String) (s : InboxState)
    (request : CheckInboxRequest) (scan : Scan) : Prop where
  limit_ne_zero : request.limit ≠ 0
  cursor_eq : scan.cursor = s.cursorAt (request.key lib agent)
  cursor_le : scan.cursor ≤ scan.cursorNow
  reached : Reached s.stream scan.cursorNow
  messages_eq : scan.messages =
    laneMessages lib agent request.filters
      (between InboxEntry.id scan.cursor scan.cursorNow s.stream)

def CallInv (lib : InboxLibrary) (agent : String) (s : InboxState) (call : InboxCall) : Prop :=
  match call.phase with
  | .resetting => True
  | .reading => True
  | .paging scan => ScanInv lib agent s call.request scan
  | .saving scan => ScanInv lib agent s call.request scan

/-- What a lane has handed out since it was last set back. -/
def delivered (lib : InboxLibrary) (agent key : String) (outputs : List InboxOutput) :
    List Message :=
  outputs.foldl (fun got output =>
    match output with
    | .reset request => if request.key lib agent = key then [] else got
    | .answered request (some result) =>
      if request.key lib agent = key then got ++ result.messages else got
    | .answered _ none => got) []

structure DeliveryInv (lib : InboxLibrary) (agent : String) (s : InboxState)
    (outputs : List InboxOutput) : Prop where
  positive : ∀ e ∈ s.stream, StreamId.zero < e.id
  ascending : Ascending InboxEntry.id s.stream
  reached : ∀ key, Reached s.stream (s.cursorAt key)
  lanes : ∀ filters, delivered lib agent (inboxCursorKey lib agent filters) outputs =
    laneMessages lib agent filters (between InboxEntry.id StreamId.zero
      (s.cursorAt (inboxCursorKey lib agent filters)) s.stream)
  call : ∀ call, s.call = some call → CallInv lib agent s call

section Delivered

variable {key : String} {outputs : List InboxOutput} {request : CheckInboxRequest}

@[simp] theorem delivered_nil : delivered lib agent key [] = [] := rfl

theorem delivered_snoc_reset : delivered lib agent key (outputs ++ [.reset request]) =
    if request.key lib agent = key then [] else delivered lib agent key outputs := by
  simp [delivered]

theorem delivered_snoc_ok {result : CheckInboxResult} :
    delivered lib agent key (outputs ++ [.answered request (some result)]) =
      if request.key lib agent = key then delivered lib agent key outputs ++ result.messages
      else delivered lib agent key outputs := by
  simp [delivered]

theorem delivered_snoc_err : delivered lib agent key (outputs ++ [.answered request none]) =
    delivered lib agent key outputs := by
  simp [delivered]

end Delivered

/-! ### Steps -/

theorem Reached.append {stream : List InboxEntry} {c : StreamId} (h : Reached stream c)
    (entry : InboxEntry) : Reached (stream ++ [entry]) c := by
  rcases h with h | ⟨e, he, hid⟩
  · exact Or.inl h
  · exact Or.inr ⟨e, List.mem_append_left _ he, hid⟩

theorem Reached.lt {stream : List InboxEntry} {c : StreamId} (h : Reached stream c)
    {entry : InboxEntry} (hpos : StreamId.zero < entry.id) (hlast : ∀ e ∈ stream, e.id < entry.id) :
    c < entry.id := by
  rcases h with rfl | ⟨e, he, rfl⟩
  · exact hpos
  · exact hlast e he

theorem Reached.between_append {stream : List InboxEntry} {c : StreamId} (h : Reached stream c)
    {entry : InboxEntry} (hpos : StreamId.zero < entry.id) (hlast : ∀ e ∈ stream, e.id < entry.id)
    (lo : StreamId) : between InboxEntry.id lo c (stream ++ [entry]) =
      between InboxEntry.id lo c stream := by
  apply between_append_of_lt
  intro e he
  rw [List.mem_singleton.1 he]
  exact h.lt hpos hlast

theorem Reached.zero_le {stream : List InboxEntry} {c : StreamId} (h : Reached stream c)
    (hpos : ∀ e ∈ stream, StreamId.zero < e.id) : StreamId.zero ≤ c := by
  rcases h with rfl | ⟨e, he, rfl⟩
  · exact le_rfl
  · exact (hpos e he).le

section Steps

variable {s : InboxState} {outputs : List InboxOutput} {request : CheckInboxRequest} {scan : Scan}

theorem ScanInv.append (h : ScanInv lib agent s request scan) {entry : InboxEntry}
    (hpos : StreamId.zero < entry.id) (hlast : ∀ e ∈ s.stream, e.id < entry.id) :
    ScanInv lib agent { s with stream := s.stream ++ [entry] } request scan where
  limit_ne_zero := h.limit_ne_zero
  cursor_eq := h.cursor_eq
  cursor_le := h.cursor_le
  reached := h.reached.append entry
  messages_eq := by
    rw [h.reached.between_append hpos hlast]
    exact h.messages_eq

theorem ScanInv.setCall (h : ScanInv lib agent s request scan) (call : Option InboxCall) :
    ScanInv lib agent { s with call := call } request scan :=
  ⟨h.limit_ne_zero, h.cursor_eq, h.cursor_le, h.reached, h.messages_eq⟩

/-- **A page keeps the invariant of the scan.** -/
theorem ScanInv.page (h : ScanInv lib agent s request scan)
    (hasc : Ascending InboxEntry.id s.stream) (n : Nat) :
    ScanInv lib agent s request (scan.page lib (laneMatches agent request.filters) request.limit
      (Paging.page InboxEntry.id scan.cursorNow n s.stream)) := by
  obtain ⟨front, hfront, hpast⟩ := Scan.page_eq_past lib (laneMatches agent request.filters)
    request.limit (Paging.page InboxEntry.id scan.cursorNow n s.stream) scan
  rw [hpast]
  rcases List.eq_nil_or_concat front with rfl | ⟨init, x, rfl⟩
  · have hsame : scan.past lib (laneMatches agent request.filters) [] = scan := by
      simp [Scan.past]
    rw [hsame]
    exact h
  · rw [List.concat_eq_append] at hfront hpast ⊢
    -- what has been read is itself a page
    have hpage : Paging.page InboxEntry.id scan.cursorNow (init ++ [x]).length s.stream =
        init ++ [x] := by
      have hprefix : init ++ [x] <+: after InboxEntry.id scan.cursorNow s.stream :=
        hfront.trans (List.take_prefix _ _)
      exact (List.prefix_iff_eq_take.1 hprefix).symm
    have hlast : (Paging.page InboxEntry.id scan.cursorNow (init ++ [x]).length s.stream).getLast? =
        some x := by
      rw [hpage, List.getLast?_concat]
    have hstretch := hasc.between_page hlast
    have hx : x ∈ after InboxEntry.id scan.cursorNow s.stream :=
      List.mem_of_mem_take (List.mem_of_getLast? hlast)
    obtain ⟨hmem, hlt⟩ := mem_after.1 hx
    have hnow : (scan.past lib (laneMatches agent request.filters) (init ++ [x])).cursorNow = x.id := by
      simp [Scan.past]
    refine ⟨h.limit_ne_zero, h.cursor_eq, ?_, ?_, ?_⟩
    · rw [hnow]
      exact h.cursor_le.trans hlt.le
    · rw [hnow]
      exact Or.inr ⟨x, hmem, rfl⟩
    · have hjoin := hasc.between_join h.cursor_le hlt.le
      rw [hnow]
      show _ = laneMessages lib agent request.filters (between InboxEntry.id scan.cursor x.id s.stream)
      rw [← hjoin, laneMessages_append, ← h.messages_eq, hstretch, hpage]
      rfl

theorem DeliveryInv.setCall (h : DeliveryInv lib agent s outputs) {call : Option InboxCall}
    (hcall : ∀ c, call = some c → CallInv lib agent s c) :
    DeliveryInv lib agent { s with call := call } outputs where
  positive := h.positive
  ascending := h.ascending
  reached := h.reached
  lanes := h.lanes
  call := by
    intro c hc
    have hinv := hcall c hc
    obtain ⟨request, phase⟩ := c
    cases phase with
    | resetting => trivial
    | reading => trivial
    | paging scan => exact ScanInv.setCall hinv call
    | saving scan => exact ScanInv.setCall hinv call

theorem DeliveryInv.append (h : DeliveryInv lib agent s outputs) {entry : InboxEntry}
    (hpos : StreamId.zero < entry.id) (hlast : ∀ e ∈ s.stream, e.id < entry.id) :
    DeliveryInv lib agent { s with stream := s.stream ++ [entry] } outputs where
  positive := by
    intro e he
    rcases List.mem_append.1 he with he | he
    · exact h.positive e he
    · rw [List.mem_singleton.1 he]
      exact hpos
  ascending := by
    refine List.pairwise_append.2 ⟨h.ascending, List.pairwise_singleton _ _, ?_⟩
    intro e he e' he'
    rw [List.mem_singleton.1 he']
    exact hlast e he
  reached key := (h.reached key).append entry
  lanes filters := by
    -- the new entry is beyond every cursor
    have hsame := (h.reached (inboxCursorKey lib agent filters)).between_append hpos hlast
      StreamId.zero
    exact (h.lanes filters).trans (congrArg (laneMessages lib agent filters) hsame.symm)
  call := by
    intro call hcall
    have hinv := h.call call hcall
    obtain ⟨request, phase⟩ := call
    cases phase with
    | resetting => trivial
    | reading => trivial
    -- and behind the page in hand
    | paging scan => exact ScanInv.append hinv hpos hlast
    | saving scan => exact ScanInv.append hinv hpos hlast

/-- A call that moved nothing has read nothing that its lane lets through. -/
theorem ScanInv.messages_eq_nil (h : ScanInv lib agent s request scan)
    (hsame : scan.cursorNow = scan.cursor) : scan.messages = [] := by
  rw [h.messages_eq, hsame, between_eq_nil_of_le le_rfl]
  rfl

theorem DeliveryInv.finish (h : DeliveryInv lib agent s outputs)
    (hscan : scan.cursorNow ≠ scan.cursor → ScanInv lib agent s request scan)
    (hnil : scan.cursorNow = scan.cursor → scan.messages = []) :
    DeliveryInv lib agent (s.finish lib agent request scan).1
      (outputs ++ (s.finish lib agent request scan).2) := by
  by_cases hmoved : scan.cursorNow ≠ scan.cursor
  · rw [InboxState.finish, if_pos hmoved, List.append_nil]
    apply h.setCall
    intro c hc
    rw [← Option.some.inj hc]
    exact hscan hmoved
  · rw [InboxState.finish, if_neg hmoved]
    have hempty := hnil (not_not.1 hmoved)
    refine ⟨h.positive, h.ascending, h.reached, ?_, nofun⟩
    intro filters
    rw [delivered_snoc_ok, Scan.result, hempty, List.append_nil, ite_self]
    exact h.lanes filters

theorem DeliveryInv.loop (h : DeliveryInv lib agent s outputs)
    (hscan : request.limit ≠ 0 → ScanInv lib agent s request scan)
    (hzero : request.limit = 0 → scan.cursorNow = scan.cursor)
    (hnil : scan.cursorNow = scan.cursor → scan.messages = []) :
    DeliveryInv lib agent (s.loop lib agent request scan).1
      (outputs ++ (s.loop lib agent request scan).2) := by
  by_cases hon : scan.goesOn request.limit
  · rw [InboxState.loop, if_pos hon, List.append_nil]
    apply h.setCall
    intro c hc
    rw [← Option.some.inj hc]
    have hlt := (of_decide_eq_true hon).1
    exact hscan (by omega)
  · rw [InboxState.loop, if_neg hon]
    apply h.finish _ hnil
    intro hmoved
    exact hscan fun hlimit => hmoved (hzero hlimit)

/-- A lane that is set back has handed out nothing. -/
theorem DeliveryInv.reset (h : DeliveryInv lib agent s outputs) :
    DeliveryInv lib agent
      { s with
        cursors := Function.update s.cursors (request.key lib agent) (some StreamId.zero)
        call := some ⟨request, .reading⟩ }
      (outputs ++ [.reset request]) where
  positive := h.positive
  ascending := h.ascending
  reached := by
    intro key
    by_cases hkey : key = request.key lib agent
    · -- the reset cursor is zero, which is a position reached
      subst hkey
      exact Or.inl (by simp [InboxState.cursorAt])
    · simp only [InboxState.cursorAt, Function.update_of_ne hkey]
      exact h.reached key
  lanes := by
    intro filters
    rw [delivered_snoc_reset]
    -- a lane of this key begins anew
    by_cases hkey : request.key lib agent = inboxCursorKey lib agent filters
    · rw [if_pos hkey, InboxState.cursorAt]
      simp only [hkey, Function.update_self, Option.getD_some]
      rw [between_eq_nil_of_le le_rfl]
      rfl
    · -- other lanes keep what they were delivered
      rw [if_neg hkey, InboxState.cursorAt]
      simp only [Function.update_of_ne (Ne.symm hkey)]
      exact h.lanes filters
  call := by
    intro c hc
    rw [← Option.some.inj hc]
    trivial

/-- **A cursor that is saved covers what the call answers.** -/
theorem DeliveryInv.save (h : DeliveryInv lib agent s outputs)
    (hscan : ScanInv lib agent s request scan) :
    DeliveryInv lib agent
      { s with
        cursors := Function.update s.cursors (request.key lib agent) (some scan.cursorNow)
        call := none }
      (outputs ++ [.answered request (some (scan.result lib agent request))]) where
  positive := h.positive
  ascending := h.ascending
  reached := by
    intro key
    rw [InboxState.cursorAt]
    by_cases hkey : key = request.key lib agent
    · subst hkey
      -- the scan ends at an entry of the stream
      simp only [Function.update_self, Option.getD_some]
      exact hscan.reached
    · simp only [Function.update_of_ne hkey]
      exact h.reached key
  lanes := by
    intro filters
    rw [delivered_snoc_ok, InboxState.cursorAt]
    by_cases hkey : request.key lib agent = inboxCursorKey lib agent filters
    · rw [if_pos hkey]
      simp only [← hkey, Function.update_self, Option.getD_some]
      -- what was delivered before and the page just read are adjacent
      have hlanes := h.lanes request.filters
      have hzero : StreamId.zero ≤ s.cursorAt (request.key lib agent) :=
        (h.reached _).zero_le h.positive
      have hle := hscan.cursor_le
      rw [hscan.cursor_eq] at hle
      show delivered lib agent (request.key lib agent) outputs ++ scan.messages = _
      rw [← laneMessages_eq_of_key_eq hkey, ← h.ascending.between_join hzero hle,
        laneMessages_append, ← hscan.cursor_eq, ← hscan.messages_eq, hscan.cursor_eq]
      exact congrArg (· ++ scan.messages) hlanes
    · rw [if_neg hkey]
      simp only [Function.update_of_ne (Ne.symm hkey)]
      exact h.lanes filters
  call := nofun

theorem DeliveryInv.command (h : DeliveryInv lib agent s outputs) {call : InboxCall}
    (hcall : s.call = some call) :
    DeliveryInv lib agent (s.command lib agent call).1
      (outputs ++ (s.command lib agent call).2) := by
  have hinv := h.call call hcall
  obtain ⟨request, phase⟩ := call
  cases phase with
  | resetting => exact h.reset
  | reading =>
    refine h.loop ?_ (fun _ => rfl) (fun _ => rfl)
    intro hlimit
    refine ⟨hlimit, rfl, le_rfl, h.reached _, ?_⟩
    show [] = _
    rw [between_eq_nil_of_le le_rfl]
    rfl
  | paging scan =>
    have hpage := ScanInv.page hinv h.ascending scan.pageSize
    simp only [InboxState.command]
    split
    · exact h.finish (fun _ => hpage) hpage.messages_eq_nil
    · exact h.loop (fun _ => hpage) (fun hlimit => absurd hlimit hpage.limit_ne_zero)
        hpage.messages_eq_nil
  | saving scan => exact h.save hinv

theorem DeliveryInv.step (h : DeliveryInv lib agent s outputs) (i : InboxInput) :
    DeliveryInv lib agent ((inbox lib agent).step s i).1
      (outputs ++ ((inbox lib agent).step s i).2) := by
  cases i with
  | append entry =>
    -- only an id above the tail is appended
    by_cases hid : StreamId.zero < entry.id ∧ ∀ e ∈ s.stream, e.id < entry.id
    · simp only [inbox, InboxState.step, if_pos hid, List.append_nil]
      exact h.append hid.1 hid.2
    · simp only [inbox, InboxState.step, if_neg hid, List.append_nil]
      exact h
  | call request =>
    cases hcall : s.call with
    | none =>
      simp only [inbox, InboxState.step, hcall, List.append_nil]
      apply h.setCall
      intro c hc
      rw [← Option.some.inj hc]
      cases request.resetCursor <;> trivial
    | some call =>
      simp only [inbox, InboxState.step, hcall, List.append_nil]
      exact h
  | redis ok =>
    cases hcall : s.call with
    | none =>
      simp only [inbox, InboxState.step, hcall, List.append_nil]
      exact h
    | some call =>
      simp only [inbox, InboxState.step, hcall]
      cases ok with
      | true => exact h.command hcall
      | false =>
        -- a failed command delivers nothing and moves no cursor
        refine ⟨h.positive, h.ascending, h.reached, ?_, nofun⟩
        intro filters
        rw [if_neg Bool.false_ne_true, delivered_snoc_err]
        exact h.lanes filters

end Steps

/-! ### Runs -/

theorem delivery_exec (lib : InboxLibrary) (agent : String) (inputs : List InboxInput) :
    DeliveryInv lib agent ((inbox lib agent).exec {} inputs).1
      ((inbox lib agent).exec {} inputs).2 := by
  refine Machine.exec_induction (inbox lib agent)
    (P := fun _ s outputs => DeliveryInv lib agent s outputs) ?_ ?_ inputs
  · exact ⟨nofun, List.Pairwise.nil, fun _ => Or.inl rfl, fun _ => rfl, nofun⟩
  · intro _ s outputs i h
    exact h.step i

/-- What moves the cursor under a key: a reset of its lane, or an answer of its lane to a call that
asked for something. -/
def Moves (lib : InboxLibrary) (agent key : String) : InboxOutput → Prop
  | .reset request => request.key lib agent = key
  | .answered request (some _) => request.key lib agent = key ∧ request.limit ≠ 0
  | .answered _ none => False

section Cursors

variable {s : InboxState} {outputs : List InboxOutput} {key : String}

theorem cursors_finish (s : InboxState) (request : CheckInboxRequest) (scan : Scan) :
    (s.finish lib agent request scan).1.cursors = s.cursors := by
  rw [InboxState.finish]
  split <;> rfl

theorem cursors_loop (s : InboxState) (request : CheckInboxRequest) (scan : Scan) :
    (s.loop lib agent request scan).1.cursors = s.cursors := by
  rw [InboxState.loop]
  split
  · rfl
  · exact cursors_finish s request scan

theorem cursors_command {call : InboxCall} (hinv : CallInv lib agent s call)
    (hquiet : ∀ o ∈ (s.command lib agent call).2, ¬ Moves lib agent key o) :
    (s.command lib agent call).1.cursors key = s.cursors key := by
  obtain ⟨request, phase⟩ := call
  cases phase with
  | resetting =>
    have hkey : ¬ request.key lib agent = key := hquiet _ List.mem_cons_self
    exact Function.update_of_ne (Ne.symm hkey) _ _
  | reading => exact congrFun (cursors_loop s _ _) key
  | paging scan =>
    simp only [InboxState.command]
    split
    · exact congrFun (cursors_finish s _ _) key
    · exact congrFun (cursors_loop s _ _) key
  | saving scan =>
    have hscan : ScanInv lib agent s request scan := hinv
    have hmoves : ¬ (request.key lib agent = key ∧ request.limit ≠ 0) :=
      hquiet _ List.mem_cons_self
    have hkey : ¬ request.key lib agent = key := fun h => hmoves ⟨h, hscan.limit_ne_zero⟩
    exact Function.update_of_ne (Ne.symm hkey) _ _

/-- **A step that moves nothing under a key leaves its cursor.** -/
theorem cursors_step (h : DeliveryInv lib agent s outputs) (i : InboxInput)
    (hquiet : ∀ o ∈ ((inbox lib agent).step s i).2, ¬ Moves lib agent key o) :
    ((inbox lib agent).step s i).1.cursors key = s.cursors key := by
  cases i with
  | append entry =>
    simp only [inbox, InboxState.step]
    split <;> rfl
  | call request =>
    simp only [inbox, InboxState.step]
    split <;> rfl
  | redis ok =>
    cases hcall : s.call with
    | none => simp only [inbox, InboxState.step, hcall]
    | some call =>
      cases ok with
      | false => simp only [inbox, InboxState.step, hcall, Bool.false_eq_true, if_false]
      | true =>
        simp only [inbox, InboxState.step, hcall, if_true] at hquiet ⊢
        exact cursors_command (h.call call hcall) hquiet

theorem cursors_exec (pre mid : List InboxInput)
    (hquiet : ∀ o ∈ ((inbox lib agent).exec ((inbox lib agent).exec {} pre).1 mid).2,
      ¬ Moves lib agent key o) :
    ((inbox lib agent).exec {} (pre ++ mid)).1.cursors key =
      ((inbox lib agent).exec {} pre).1.cursors key := by
  induction mid using List.reverseRecOn with
  | nil => rw [List.append_nil]
  | append_singleton mid i ih =>
    rw [Machine.exec_snoc] at hquiet
    rw [← List.append_assoc, Machine.exec_snoc]
    have hstate : ((inbox lib agent).exec {} (pre ++ mid)).1 =
        ((inbox lib agent).exec ((inbox lib agent).exec {} pre).1 mid).1 := by
      rw [Machine.exec_append]
    have hlast : ∀ o ∈ ((inbox lib agent).step ((inbox lib agent).exec {} (pre ++ mid)).1 i).2,
        ¬ Moves lib agent key o := by
      intro o ho
      rw [hstate] at ho
      exact hquiet o (List.mem_append_right _ ho)
    have hstep := cursors_step (delivery_exec lib agent (pre ++ mid)) i hlast
    exact hstep.trans (ih fun o ho => hquiet o (List.mem_append_left _ ho))

end Cursors

/-- **The inbox neither loses nor repeats notifications.**  In every run, what a lane has handed out
since it was last set back is what it lets through of the stream up to its cursor, and a cursor
stays where it is while its lane is neither set back nor answers a call with a limit. -/
theorem inbox_delivery (lib : InboxLibrary) (agent : String) (inputs : List InboxInput) :
    let run := (inbox lib agent).exec {} inputs
    (run.1.stream.Pairwise fun e e' => e.id < e'.id) ∧
      (∀ filters,
        let key := inboxCursorKey lib agent filters
        let passed := run.1.stream.filter fun e => e.id ≤ run.1.cursorAt key
        passed <+: run.1.stream ∧
          delivered lib agent key run.2 = laneMessages lib agent filters passed) ∧
      ∀ pre mid key, inputs = pre ++ mid →
        (∀ o ∈ ((inbox lib agent).exec ((inbox lib agent).exec {} pre).1 mid).2,
          ¬ Moves lib agent key o) →
        run.1.cursors key = ((inbox lib agent).exec {} pre).1.cursors key := by
  intro run
  have hinv : DeliveryInv lib agent run.1 run.2 := delivery_exec lib agent inputs
  refine ⟨hinv.ascending, ?_, ?_⟩
  · -- what is passed is what lies between zero and the cursor
    intro filters key passed
    have hpassed : between InboxEntry.id StreamId.zero (run.1.cursorAt key) run.1.stream = passed := by
      refine List.filter_congr ?_
      intro e he
      rw [decide_eq_true (hinv.positive e he), Bool.true_and]
    refine ⟨⟨_, hinv.ascending.split (run.1.cursorAt key)⟩, ?_⟩
    rw [← hpassed]
    exact hinv.lanes filters
  · intro pre mid key hinputs hquiet
    show ((inbox lib agent).exec {} inputs).1.cursors key = _
    rw [hinputs]
    exact cursors_exec pre mid hquiet

/-! ### A lane set back -/

def sampleNotice : Message :=
  { emptyMessage with
    id := "n-1", timestampUtc := "2026-01-01T00:00:00.000000Z", fromAgent := "a", toAgent := "b"
    topic := "status", body := "done" }

def sampleInboxLibrary : InboxLibrary where
  readMessage text := if text = jsonText (.obj sampleNotice.fields) then some sampleNotice else none
  digest text := text
  digest_injective := Function.injective_id

def sampleEntry : InboxEntry where
  id := toLex (1, 0)
  fields := [("message", jsonText (.obj sampleNotice.fields))]

/-- A call on the lane without filters. -/
def plainCall (limit : Nat) (resetCursor : Bool) : CheckInboxRequest where
  limit := limit
  resetCursor := resetCursor
  filters := ⟨none, none, [], none, none⟩

/-- A call that asks for a reset moves the cursor although its limit is zero, and the lane hands the
message out again. -/
theorem reset_repeats :
    let read := [.call (plainCall 1 false), .redis true, .redis true, .redis true]
    let reset := [.call (plainCall 0 true), .redis true, .redis true]
    let first := (inbox sampleInboxLibrary "b").exec {} (.append sampleEntry :: read)
    let second := (inbox sampleInboxLibrary "b").exec first.1 reset
    let third := (inbox sampleInboxLibrary "b").exec second.1 read
    let key := notificationCursorKey "b"
    let answers := fun outputs : List InboxOutput => outputs.filterMap fun
      | .answered _ (some result) => some result.messages
      | _ => none
    first.1.cursors key = some (toLex (1, 0)) ∧ second.1.cursors key = some StreamId.zero ∧
      answers (first.2 ++ second.2 ++ third.2) = [[sampleNotice], [], [sampleNotice]] := by
  decide +kernel

end AgentHub.Hub
