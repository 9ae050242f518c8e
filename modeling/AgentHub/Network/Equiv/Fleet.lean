import AgentHub.Cloud.Equiv.Pull
import AgentHub.Cloud.Equiv.Push
import AgentHub.Network.Replication
import AgentHub.Sync.Equiv.Pull
import AgentHub.Sync.Equiv.Push

/-!
# Where the messages of a fleet come from

`FleetInv` follows a message through a run: a batch that was pushed is of entries of the hub's
stream, a row of the log was inserted once, a page holds inserted rows, and what a hub has in hand
or has ingested is the message of an inserted row of another origin.  It is kept by every step
(`FleetInv.step`).
-/

namespace AgentHub.Network

open AgentHub.Json AgentHub.Cloud AgentHub.Cloud.BusLog AgentHub.Sync

variable {d : Deployment} {s : Fleet} {name : HubName}

theorem HubName.text_ne (name : HubName) : name.text ≠ "" := by
  intro h
  have hvalid := name.valid
  rw [h] at hvalid
  revert hvalid
  decide

namespace Fleet

/-! ### A step of a hub -/

theorem ask_of_not_request (s : Fleet) (name : HubName) {o : SiteOutput} (h : o.isRequest = false) :
    s.ask name o = s := by
  cases o <;> first | rfl | cases h

/-- Only the requests among the outputs of a step change anything. -/
theorem foldl_ask (name : HubName) (outs : List SiteOutput) (s : Fleet) :
    outs.foldl (fun s o => s.ask name o) s =
      (outs.filter SiteOutput.isRequest).foldl (fun s o => s.ask name o) s := by
  induction outs generalizing s with
  | nil => rfl
  | cons o outs ih =>
    cases h : o.isRequest with
    | true => rw [List.filter_cons_of_pos h, List.foldl_cons, List.foldl_cons, ih]
    | false =>
      rw [List.filter_cons_of_neg (by rw [h]; decide), List.foldl_cons, ask_of_not_request s name h,
        ih]

/-- What waits for an answer after a hub's step to `r`. -/
inductive Asked (s s' : Fleet) (name : HubName) (r : Site × List SiteOutput) : Prop where
  | nothing (hsent : s'.sent = s.sent) (hpending : s'.pending = s.pending)
    (hanswers : s'.answers = s.answers)
    (hphase : ∀ e, r.1.engine = some e → (s.sites name).engine = some e ∨ e.phase ≠ .pulling)
  | push (batch : List (StreamId × Message)) (e : Engine) (he : r.1.engine = some e)
    (hbatch : batch ⊆ e.outbox) (hout : SiteOutput.push batch ∈ r.2)
    (hphase : e.phase ≠ .pulling) (hsent : s'.sent = s.sent ++ [(name, .push batch)])
    (hpending : s'.pending = Function.update s.pending name (some (.push batch)))
    (hanswers : s'.answers = Function.update s.answers name none)
  | presence (hphase : ∀ e, r.1.engine = some e → e.phase ≠ .pulling) (hsent : s'.sent = s.sent)
    (hpending : s'.pending = Function.update s.pending name none)
    (hanswers : s'.answers = Function.update s.answers name none)
  | pull (e : Engine) (he : r.1.engine = some e)
    (hsent : s'.sent = s.sent ++ [(name, .pull e.cursors.pullCursor)])
    (hpending : s'.pending = Function.update s.pending name (some (.pull e.cursors.pullCursor)))
    (hanswers : s'.answers = Function.update s.answers name none)

/-- **A step of a hub leaves the log and the other hubs alone, and asks for at most one thing.** -/
theorem stepSite_fst (s : Fleet) (name : HubName) (i : SiteInput) :
    (s.stepSite d name i).1.log = s.log ∧
    (s.stepSite d name i).1.sites = Function.update s.sites name
      ((s.sites name).step (d.codec name) (d.config name) i).1 ∧
    Asked s (s.stepSite d name i).1 name
      ((s.sites name).step (d.codec name) (d.config name) i) := by
  have hasks : Asks (s.sites name) ((s.sites name).step (d.codec name) (d.config name) i) :=
    Site.step_requests _ i
  rw [stepSite]
  generalize (s.sites name).step (d.codec name) (d.config name) i = r at hasks ⊢
  simp only
  rw [foldl_ask]
  -- a tick asks nothing, or what the phase it reaches asks
  rcases hasks with ⟨hnil, hengine⟩ | ⟨e, he, hrequests⟩
  · rw [hnil]
    refine ⟨rfl, rfl, .nothing rfl rfl rfl ?_⟩
    intro e he
    rcases hengine with hnone | hsame
    · rw [hnone] at he
      cases he
    · exact Or.inl (hsame ▸ he)
  · rw [hrequests]
    cases hphase : e.phase with
    | pushing chunks fullChunk =>
      have hreq : Site.requests e = [.push (e.outbox.take e.take)] := by rw [Site.requests, hphase]
      rw [hreq] at hrequests ⊢
      refine ⟨rfl, rfl, .push _ e he (List.take_subset _ _) ?_ (by simp [hphase]) rfl rfl rfl⟩
      exact (List.mem_filter.1 (hrequests ▸ List.mem_cons_self)).1
    | pushingPresence chunks rows =>
      have hreq : Site.requests e = [.pushPresence rows] := by rw [Site.requests, hphase]
      rw [hreq]
      refine ⟨rfl, rfl, .presence ?_ rfl rfl rfl⟩
      intro e' he'
      obtain rfl := Option.some.inj (he.symm.trans he')
      simp [hphase]
    | pulling =>
      have hreq : Site.requests e = [.pull e.cursors.pullCursor] := by rw [Site.requests, hphase]
      rw [hreq]
      exact ⟨rfl, rfl, .pull e he rfl rfl rfl⟩
    -- the other phases ask nothing
    | _ =>
      have hreq : Site.requests e = [] := by rw [Site.requests, hphase]
      rw [hreq]
      refine ⟨rfl, rfl, .nothing rfl rfl rfl ?_⟩
      intro e' he'
      obtain rfl := Option.some.inj (he.symm.trans he')
      simp [hphase]

/-- The events of a hub's step. -/
inductive HubEvent (s : Fleet) (name : HubName) (outs : List SiteOutput) : FleetEvent → Prop where
  | appended (id : StreamId) : HubEvent s name outs (.appended name id)
  | pushed (batch : List (StreamId × Message)) (h : SiteOutput.push batch ∈ outs) :
    HubEvent s name outs (.pushed name batch)
  | ingested (id : StreamId) (m : Message) (h : SiteOutput.ingested id m ∈ outs) :
    HubEvent s name outs (.ingested name id m)

theorem mem_stepSite_snd {i : SiteInput} {ev : FleetEvent} (h : ev ∈ (s.stepSite d name i).2) :
    HubEvent s name ((s.sites name).step (d.codec name) (d.config name) i).2 ev := by
  rw [stepSite] at h
  rcases List.mem_append.1 h with h | h
  · unfold appendEvent at h
    split at h
    · split at h
      · rw [List.mem_singleton.1 h]
        exact .appended _
      · cases h
    · cases h
  · obtain ⟨o, ho, hev⟩ := List.mem_filterMap.1 h
    cases o with
    | push batch =>
      obtain rfl := Option.some.inj hev
      exact .pushed _ ho
    | ingested id m =>
      obtain rfl := Option.some.inj hev
      exact .ingested _ _ ho
    | _ => cases hev

theorem mem_stepSite_snd_of_push {i : SiteInput} {batch : List (StreamId × Message)}
    (h : SiteOutput.push batch ∈ ((s.sites name).step (d.codec name) (d.config name) i).2) :
    FleetEvent.pushed name batch ∈ (s.stepSite d name i).2 := by
  rw [stepSite]
  exact List.mem_append_right _ (List.mem_filterMap.2 ⟨_, h, rfl⟩)

/-- A hub's step takes place, unless it would be an answer of the log. -/
theorem step_site (s : Fleet) (name : HubName) (i : SiteInput) :
    (s.step d (.site name i) = s.stepSite d name i ∧
      ∀ body save, i = .cloud (some body) save → awaitsPresence (s.sites name) = true) ∨
    s.step d (.site name i) = (s, []) := by
  by_cases hi : ∃ body save, i = .cloud (some body) save
  · obtain ⟨body, save, rfl⟩ := hi
    simp only [step]
    split
    case isTrue hawaits => exact Or.inl ⟨rfl, fun _ _ _ => hawaits⟩
    case isFalse => exact Or.inr rfl
  · have hstep : s.step d (.site name i) = s.stepSite d name i := by
      unfold step
      split <;> simp_all
    exact Or.inl ⟨hstep, fun body save heq => absurd ⟨body, save, heq⟩ hi⟩

/-! ### Writes to the log -/

/-- What a write does to the log, by its events; `Source` says whose entries it may store. -/
structure LogStep (Source : HubName → StreamId → Prop) (log log' : BusLog)
    (events : List FleetEvent) : Prop where
  kept : log.rows ⊆ log'.rows
  lastSeq_le : log.lastSeq ≤ log'.lastSeq
  new : ∀ row ∈ log'.rows, row ∈ log.rows ∨ .inserted row ∈ events
  inserted : ∀ row, .inserted row ∈ events →
    row ∈ log'.rows ∧ log.lastSeq < row.seq ∧ row.sensitivity = none ∧ row.originHub ≠ ""
  stored : ∀ b id row, .stored b id row ∈ events →
    Source b id ∧ row.originHub = b.text ∧ .inserted row ∈ events
  kinds : ∀ ev ∈ events, (∃ row, ev = .inserted row) ∨ ∃ b id row, ev = .stored b id row

theorem logStep_of_eq {Source : HubName → StreamId → Prop} (log : BusLog) :
    LogStep Source log log [] :=
  ⟨fun _ h => h, Nat.le_refl _, fun _ h => Or.inl h, by simp, by simp, by simp⟩

theorem mem_storedEvents {batch : List (StreamId × Message)}
    {built : List (Value × Checked InsertMessageInput)} {results : List ItemResult}
    {ev : FleetEvent} (h : ev ∈ storedEvents name batch built results) :
    ∃ id row, id ∈ batch.map Prod.fst ∧ ItemResult.accepted row ∈ results ∧
      .inserted row ∈ storedEvents name batch built results ∧
      (ev = .inserted row ∨ ev = .stored name id row) := by
  have hall := h
  unfold storedEvents at h
  obtain ⟨⟨⟨id, x⟩, result⟩, hmem, hev⟩ := List.mem_flatMap.1 h
  obtain ⟨hleft, hresult⟩ := List.of_mem_zip hmem
  have hid := (List.of_mem_zip (List.mem_filter.1 hleft).1).1
  cases result with
  | accepted row =>
    refine ⟨id, row, hid, hresult, ?_, by simpa using hev⟩
    exact List.mem_flatMap.2 ⟨_, hmem, List.mem_cons_self⟩
  | _ => cases hev

/-- The items of a batch, as the Worker builds them. -/
def builtItems (d : Deployment) (batch : List (StreamId × Message)) (moment : Moment) :
    List (Value × Checked InsertMessageInput) :=
  buildItems d.worker moment 0 ((batch.map Prod.snd).map (hubItem d.worker))

/-- The items are those whose building succeeded. -/
theorem length_filter_zip_built {batch : List (StreamId × Message)}
    {built : List (Value × Checked InsertMessageInput)} (h : built.length ≤ batch.length) :
    (((batch.map Prod.fst).zip built).filter fun x => x.2.2.isOk).length =
      (built.filterMap fun x => x.2.toOption).length := by
  induction built generalizing batch with
  | nil => simp
  | cons x built ih =>
    cases batch with
    | nil => simp at h
    | cons y batch =>
      have hrest := ih (Nat.le_of_succ_le_succ h)
      obtain ⟨v, r⟩ := x
      cases r with
      | ok item => simpa [Except.isOk, Except.toBool, Except.toOption] using hrest
      | error reason => simpa [Except.isOk, Except.toBool, Except.toOption] using hrest

theorem length_buildItems (worker : Worker) (moment : Moment) (i : Nat) (ms : List Value) :
    (buildItems worker moment i ms).length = ms.length := by
  induction ms generalizing i with
  | nil => rfl
  | cons m ms ih => rw [buildItems, List.length_cons, List.length_cons, ih]

/-- **A push of a hub writes rows of its own under its name.** -/
theorem servePush_logStep (s : Fleet) (name : HubName) (batch : List (StreamId × Message))
    (moment : Moment) :
    LogStep (fun b id => b = name ∧ id ∈ batch.map Prod.fst) s.log
      (s.servePush d name batch moment).1.log (s.servePush d name batch moment).2.2 := by
  have hlog : (s.servePush d name batch moment).1.log =
      (postSyncPush d.worker s.log name.text (pushBody d.worker (batch.map Prod.snd)) moment).1 :=
    rfl
  have hevents : (s.servePush d name batch moment).2.2 =
      if (batch.map Prod.snd).length ≤ 500 then
        storedEvents name batch (builtItems d batch moment)
          (storeItems d.worker s.log name.text
            ((builtItems d batch moment).filterMap fun x => x.2.toOption) moment).2.1
      else [] := rfl
  -- a push of more than 500 items is refused as a whole
  by_cases hlen : (batch.map Prod.snd).length ≤ 500
  · rw [postSyncPush_hub s.log name.text hlen moment] at hlog
    rw [if_pos hlen] at hevents
    -- no item of a hub's push carries a sensitivity
    have hitem : ∀ item ∈ (builtItems d batch moment).filterMap (fun x => x.2.toOption),
        item.sensitivity = none := by
      intro item hitem
      obtain ⟨m, -, uuid, hm⟩ := mem_items hitem
      obtain ⟨_, _, _, _, _, _, _, -, -, -, -, -, -, -, -, -, -, rfl⟩ := buildSyncPushItem_ok hm
      rfl
    have hbuilt : (builtItems d batch moment).length ≤ batch.length := by
      rw [builtItems, length_buildItems, List.length_map, List.length_map]
    have hzip := length_filter_zip_built hbuilt
    have hle : (storeItems d.worker s.log name.text
        ((builtItems d batch moment).filterMap fun x => x.2.toOption) moment).2.1.length ≤ _ :=
      storeItems_length_le _ _ _ _
    -- the results are those of the items that were built, in their order
    have hpushed : Pushed name.text s.log (s.servePush d name batch moment).1.log
        ((builtItems d batch moment).filterMap fun x => x.2.toOption)
        (storeItems d.worker s.log name.text
          ((builtItems d batch moment).filterMap fun x => x.2.toOption) moment).2.1 := by
      rw [hlog]
      exact storeItems_pushed rfl
    rw [hevents]
    generalize (storeItems d.worker s.log name.text
      ((builtItems d batch moment).filterMap fun x => x.2.toOption) moment).2.1 = results
      at hle hpushed ⊢
    generalize builtItems d batch moment = built at hitem hzip hle hpushed ⊢
    have haccepted : ∀ row, ItemResult.accepted row ∈ results →
        row ∈ (s.servePush d name batch moment).1.log.rows ∧ s.log.lastSeq < row.seq ∧
          row.sensitivity = none ∧ row.originHub = name.text := by
      intro row hrow
      obtain ⟨item, hmem⟩ := exists_mem_zip_right hrow hle
      obtain ⟨-, hin, ⟨horigin, hfields⟩, hseq⟩ := hpushed.accepted item row hmem
      refine ⟨hin, hseq, ?_, horigin⟩
      have hsensitivity := hitem item (List.of_mem_zip hmem).1
      rw [← hfields] at hsensitivity
      exact hsensitivity
    refine ⟨hpushed.grows.subset, hpushed.lastSeq_le, ?_, ?_, ?_, ?_⟩
    · intro row hrow
      -- a row is new only if some item was accepted into it
      refine (hpushed.new row hrow).imp_right fun hin => ?_
      obtain ⟨x, hx⟩ := exists_mem_zip_right hin (hle.trans hzip.ge)
      exact List.mem_flatMap.2 ⟨_, hx, List.mem_cons_self⟩
    · intro row hrow
      obtain ⟨id, row', -, hin, -, heq | heq⟩ := mem_storedEvents hrow
      · cases heq
        obtain ⟨h₁, h₂, h₃, h₄⟩ := haccepted row hin
        exact ⟨h₁, h₂, h₃, h₄ ▸ name.text_ne⟩
      · cases heq
    · intro b id row hrow
      obtain ⟨id', row', hid, hin, hins, heq | heq⟩ := mem_storedEvents hrow
      · cases heq
      · cases heq
        exact ⟨⟨rfl, hid⟩, (haccepted row hin).2.2.2, hins⟩
    · intro ev hev
      obtain ⟨id, row, -, -, -, rfl | rfl⟩ := mem_storedEvents hev
      · exact Or.inl ⟨row, rfl⟩
      · exact Or.inr ⟨name, id, row, rfl⟩
  · have hsame : (s.servePush d name batch moment).1.log = s.log := by
      rw [hlog]
      exact postSyncPush_of_long s.log name.text (Nat.lt_of_not_le hlen) moment
    rw [hsame, hevents, if_neg hlen]
    exact logStep_of_eq s.log

theorem insert_logStep (s : Fleet) (fields : MessageFields) (originHub : String) (now : Int)
    (fault : Fault) :
    (s.insert d fields originHub now fault).1 =
      { s with log := (s.insert d fields originHub now fault).1.log } ∧
    LogStep (fun _ _ => False) s.log (s.insert d fields originHub now fault).1.log
      (s.insert d fields originHub now fault).2 := by
  unfold insert
  split
  case isTrue => exact ⟨rfl, logStep_of_eq s.log⟩
  case isFalse hne =>
    split
    case h_1 log row hinsert =>
      obtain ⟨hrow, hrows, hlast⟩ := insertMessage_inserted hinsert
      refine ⟨rfl, ⟨?_, by simp [hlast], ?_, ?_, by simp, by simp⟩⟩
      · intro r hr
        rw [hrows]
        exact List.mem_append_left _ hr
      · intro r hr
        rw [hrows, List.mem_append, List.mem_singleton] at hr
        exact hr.imp_right fun h => by simp [h]
      · intro r hr
        -- the one new row is the one that was inserted
        obtain rfl : r = row := by simpa using hr
        refine ⟨by simp [hrows], ?_, ?_, ?_⟩
        · rw [hrow]
          exact Nat.lt_succ_self _
        · rw [hrow]
          rfl
        · rw [hrow]
          show originHub ≠ ""
          simpa using hne
    case h_2 => exact ⟨rfl, logStep_of_eq s.log⟩

end Fleet

/-! ### The invariant -/

/-- The message a hub reads for an inserted row. -/
def OfRow (d : Doubles) (tr : List FleetEvent) (m : Message) : Prop :=
  ∃ row, .inserted row ∈ tr ∧ row.read d = some m

/-- What the hubs wait for. -/
structure RequestInv (s : Fleet) (tr : List FleetEvent) : Prop where
  sent : ∀ b batch, (b, .push batch) ∈ s.sent → .pushed b batch ∈ tr
  pending : ∀ b batch, s.pending b = some (.push batch) → .pushed b batch ∈ tr
  pulling : ∀ b e, (s.sites b).engine = some e → e.phase = .pulling →
    s.pending b = some (.pull e.cursors.pullCursor)
  plain : ∀ b body, s.answers b = some (.plain (.ok body)) →
    ∃ batch, s.pending b = some (.push batch)
  page : ∀ b r, s.answers b = some (.page r) →
    ∃ since, s.pending b = some (.pull since) ∧ .page b since r ∈ tr

/-- Where messages come from. -/
structure LineageInv (d : Deployment) (s : Fleet) (tr : List FleetEvent) : Prop where
  sites : ∀ b, ∃ t, SiteInv (d.codec b) (d.config b) t (s.sites b)
  rows : ∀ row ∈ s.log.rows, .inserted row ∈ tr
  inserted : ∀ row, .inserted row ∈ tr →
    row.seq ≤ s.log.lastSeq ∧ row.sensitivity = none ∧ row.originHub ≠ ""
  /-- No sequence number is given out twice. -/
  unique : ∀ row row', .inserted row ∈ tr → .inserted row' ∈ tr → row.seq = row'.seq → row = row'
  pages : ∀ b since r, .page b since r ∈ tr → ∀ row ∈ r.page, .inserted row ∈ tr
  pushed : ∀ b batch, .pushed b batch ∈ tr → ∀ x ∈ batch, ∃ entry ∈ (s.sites b).stream,
    x = (entry.id, entry.message (d.codec b)) ∧ pushable x.2 b.text = true
  stored : ∀ b id row, .stored b id row ∈ tr → row.originHub = b.text ∧ .inserted row ∈ tr ∧
    ∃ batch, .pushed b batch ∈ tr ∧ id ∈ batch.map Prod.fst
  inHand : ∀ b e ms n more, (s.sites b).engine = some e → e.phase = .ingesting ms n more →
    ∀ m ∈ ms, OfRow (d.codec b).doubles tr m ∧ m.originHub ≠ some b.text
  ingested : ∀ b id m, .ingested b id m ∈ tr →
    OfRow (d.codec b).doubles tr m ∧ m.originHub ≠ some b.text ∧
      ∃ origin, m.originHub = some origin ∧ origin ≠ "" ∧
        ⟨id, syncedFields m origin⟩ ∈ (s.sites b).stream

structure FleetInv (d : Deployment) (s : Fleet) (tr : List FleetEvent) : Prop extends
  RequestInv s tr, LineageInv d s tr

variable {tr events : List FleetEvent}

theorem OfRow.mono {c : Doubles} {m : Message} (h : OfRow c tr m) (events : List FleetEvent) :
    OfRow c (tr ++ events) m := by
  obtain ⟨row, hrow, hread⟩ := h
  exact ⟨row, List.mem_append_left _ hrow, hread⟩

theorem FleetInv.initial (d : Deployment) : FleetInv d {} [] where
  sites b := ⟨[], siteInv_exec (d.codec b) (d.config b) none []⟩
  rows := by simp [BusLog.empty]
  inserted := by simp
  unique := by simp
  sent := by simp
  pending := by simp
  pulling b e he := by simp [Site.fresh] at he
  plain := by simp
  page := by simp
  pages := by simp
  pushed := by simp
  stored := by simp
  inHand b e ms n more he := by simp [Site.fresh] at he
  ingested := by simp

/-! ### Requests -/

namespace RequestInv

theorem mono (h : RequestInv s tr) (events : List FleetEvent) : RequestInv s (tr ++ events) where
  sent b batch hb := List.mem_append_left _ (h.sent b batch hb)
  pending b batch hb := List.mem_append_left _ (h.pending b batch hb)
  pulling := h.pulling
  plain := h.plain
  page b r hr := by
    obtain ⟨since, hpending, hpage⟩ := h.page b r hr
    exact ⟨since, hpending, List.mem_append_left _ hpage⟩

theorem ofLog (h : RequestInv s tr) (log : BusLog) : RequestInv { s with log } tr :=
  ⟨h.sent, h.pending, h.pulling, h.plain, h.page⟩

/-- An answer is dropped. -/
theorem dropAnswer (h : RequestInv s tr) (b : HubName) :
    RequestInv { s with answers := Function.update s.answers b none } tr := by
  have hanswers : ∀ x a, Function.update s.answers b none x = some a → s.answers x = some a := by
    intro x a hx
    by_cases hxb : x = b
    · rw [hxb, Function.update_self] at hx
      cases hx
    · rwa [Function.update_of_ne hxb] at hx
  exact { h with
    plain := fun x body hx => h.plain x body (hanswers x _ hx)
    page := fun x r hx => h.page x r (hanswers x _ hx) }

/-- The Worker answers the request a hub waits for. -/
theorem answer (h : RequestInv s tr) {b : HubName} {a : SyncAnswer}
    (hplain : ∀ body, a = .plain (.ok body) → ∃ batch, s.pending b = some (.push batch))
    (hpage : ∀ r, a = .page r → ∃ since, s.pending b = some (.pull since) ∧ .page b since r ∈ tr) :
    RequestInv { s with answers := Function.update s.answers b (some a) } tr := by
  have hanswers : ∀ x a', Function.update s.answers b (some a) x = some a' →
      (x = b ∧ a' = a) ∨ s.answers x = some a' := by
    intro x a' hx
    by_cases hxb : x = b
    · rw [hxb, Function.update_self] at hx
      exact Or.inl ⟨hxb, (Option.some.inj hx).symm⟩
    · rw [Function.update_of_ne hxb] at hx
      exact Or.inr hx
  refine { h with plain := ?_, page := ?_ }
  · intro x body hx
    rcases hanswers x _ hx with ⟨rfl, ha⟩ | hold
    · exact hplain body ha.symm
    · exact h.plain x body hold
  · intro x r hx
    rcases hanswers x _ hx with ⟨rfl, ha⟩ | hold
    · exact hpage r ha.symm
    · exact h.page x r hold

/-- A hub that waits for something new has no answer yet. -/
theorem ask (h : RequestInv s tr) {s' : Fleet} {request : Option SyncRequest}
    (hsent : ∀ b batch, (b, .push batch) ∈ s'.sent → .pushed b batch ∈ tr)
    (hrequest : ∀ batch, request = some (.push batch) → .pushed name batch ∈ tr)
    (hpending : s'.pending = Function.update s.pending name request)
    (hanswers : s'.answers = Function.update s.answers name none)
    (hothers : ∀ b, b ≠ name → s'.sites b = s.sites b)
    (hpulling : ∀ e, (s'.sites name).engine = some e → e.phase = .pulling →
      request = some (.pull e.cursors.pullCursor)) :
    RequestInv s' tr := by
  have hkept : ∀ x, x ≠ name → s'.pending x = s.pending x ∧ s'.answers x = s.answers x := by
    intro x hx
    rw [hpending, hanswers, Function.update_of_ne hx, Function.update_of_ne hx]
    exact ⟨rfl, rfl⟩
  -- the site that asked has no answer yet
  have hanswer : ∀ x a, s'.answers x = some a → x ≠ name := by
    rintro x a hx rfl
    rw [hanswers, Function.update_self] at hx
    cases hx
  refine ⟨hsent, ?_, ?_, ?_, ?_⟩
  · intro b batch hb
    by_cases hbn : b = name
    · subst hbn
      rw [hpending, Function.update_self] at hb
      exact hrequest batch hb
    · rw [(hkept b hbn).1] at hb
      exact h.pending b batch hb
  · intro b e he hphase
    by_cases hbn : b = name
    · subst hbn
      rw [hpending, Function.update_self]
      exact hpulling e he hphase
    · rw [(hkept b hbn).1]
      exact h.pulling b e (hothers b hbn ▸ he) hphase
  · intro b body hb
    have hbn := hanswer b _ hb
    rw [(hkept b hbn).2] at hb
    rw [(hkept b hbn).1]
    exact h.plain b body hb
  · intro b r hb
    have hbn := hanswer b _ hb
    rw [(hkept b hbn).2] at hb
    rw [(hkept b hbn).1]
    exact h.page b r hb

/-- A step of a hub. -/
theorem stepSite (h : RequestInv s tr) (i : SiteInput) :
    RequestInv (s.stepSite d name i).1 (tr ++ (s.stepSite d name i).2) := by
  obtain ⟨-, hsites, hasked⟩ := Fleet.stepSite_fst (d := d) s name i
  have hothers : ∀ b, b ≠ name → (s.stepSite d name i).1.sites b = s.sites b := by
    intro b hb
    rw [hsites, Function.update_of_ne hb]
  have hself : (s.stepSite d name i).1.sites name =
      ((s.sites name).step (d.codec name) (d.config name) i).1 := by
    rw [hsites, Function.update_self]
  have hmono := h.mono (s.stepSite d name i).2
  cases hasked with
  | nothing hsent hpending hanswers hphase =>
    refine ⟨?_, ?_, ?_, ?_, ?_⟩
    · rw [hsent]
      exact hmono.sent
    · rw [hpending]
      exact hmono.pending
    · intro b e he hpull
      rw [hpending]
      by_cases hb : b = name
      · -- a site that is pulling was pulling before
        subst hb
        rw [hself] at he
        rcases hphase e he with hsame | hne
        · exact h.pulling b e hsame hpull
        · exact absurd hpull hne
      · exact h.pulling b e (hothers b hb ▸ he) hpull
    · rw [hpending, hanswers]
      exact hmono.plain
    · rw [hpending, hanswers]
      exact hmono.page
  | push batch e he hbatch hout hphase hsent hpending hanswers =>
    have hevent := Fleet.mem_stepSite_snd_of_push hout
    refine hmono.ask ?_ ?_ hpending hanswers hothers ?_
    · intro b batch' hb
      rw [hsent, List.mem_append, List.mem_singleton] at hb
      -- what is sent is what was just pushed
      rcases hb with hb | hb
      · exact hmono.sent b batch' hb
      · cases hb
        exact List.mem_append_right _ hevent
    · intro batch' hb
      cases hb
      exact List.mem_append_right _ hevent
    · intro e' he' hpull
      rw [hself, he] at he'
      cases he'
      exact absurd hpull hphase
  | presence hphase hsent hpending hanswers =>
    refine hmono.ask ?_ (by simp) hpending hanswers hothers ?_
    · rw [hsent]
      exact hmono.sent
    · intro e' he' hpull
      rw [hself] at he'
      exact absurd hpull (hphase e' he')
  | pull e he hsent hpending hanswers =>
    refine hmono.ask ?_ (by simp) hpending hanswers hothers ?_
    · intro b batch' hb
      rw [hsent, List.mem_append, List.mem_singleton] at hb
      rcases hb with hb | hb
      · exact hmono.sent b batch' hb
      · cases hb
    · intro e' he' _
      rw [hself, he] at he'
      cases he'
      rfl

end RequestInv

/-! ### Lineage -/

namespace LineageInv

/-- A write to the log. -/
theorem logStep (h : LineageInv d s tr) {Source : HubName → StreamId → Prop} {log' : BusLog}
    (hlog : Fleet.LogStep Source s.log log' events)
    (hsource : ∀ b id, Source b id → ∃ batch, .pushed b batch ∈ tr ∧ id ∈ batch.map Prod.fst) :
    LineageInv d { s with log := log' } (tr ++ events) := by
  -- a step on the log adds insertions and stored rows only
  have hold : ∀ ev ∈ tr ++ events, (∀ row, ev ≠ .inserted row) →
      (∀ b id row, ev ≠ .stored b id row) → ev ∈ tr := by
    intro ev hev h₁ h₂
    rcases List.mem_append.1 hev with hev | hev
    · exact hev
    · rcases hlog.kinds ev hev with ⟨row, rfl⟩ | ⟨b, id, row, rfl⟩
      · exact absurd rfl (h₁ row)
      · exact absurd rfl (h₂ b id row)
  refine ⟨h.sites, ?_, ?_, ?_, ?_, ?_, ?_, ?_, ?_⟩
  · intro row hrow
    rcases hlog.new row hrow with hin | hnew
    · exact List.mem_append_left _ (h.rows row hin)
    · exact List.mem_append_right _ hnew
  · intro row hrow
    rcases List.mem_append.1 hrow with hin | hnew
    · obtain ⟨hseq, hrest⟩ := h.inserted row hin
      exact ⟨hseq.trans hlog.lastSeq_le, hrest⟩
    · obtain ⟨hin, -, hrest⟩ := hlog.inserted row hnew
      exact ⟨log'.le_lastSeq row hin, hrest⟩
  · -- numbers of new rows are beyond all old ones
    intro row row' hrow hrow' heq
    rcases List.mem_append.1 hrow with hin | hnew
    · rcases List.mem_append.1 hrow' with hin' | hnew'
      · exact h.unique row row' hin hin' heq
      · have h₁ := (h.inserted row hin).1
        have h₂ := (hlog.inserted row' hnew').2.1
        omega
    · rcases List.mem_append.1 hrow' with hin' | hnew'
      · have h₁ := (h.inserted row' hin').1
        have h₂ := (hlog.inserted row hnew).2.1
        omega
      · exact eq_of_seq_eq (hlog.inserted row hnew).1 (hlog.inserted row' hnew').1 heq
  · intro b since r hr row hrow
    exact List.mem_append_left _ (h.pages b since r (hold _ hr (by simp) (by simp)) row hrow)
  · intro b batch hb
    exact h.pushed b batch (hold _ hb (by simp) (by simp))
  · intro b id row hrow
    -- a row that was stored came from a batch that was pushed
    rcases List.mem_append.1 hrow with hin | hnew
    · obtain ⟨horigin, hin, batch, hbatch, hid⟩ := h.stored b id row hin
      exact ⟨horigin, List.mem_append_left _ hin, batch, List.mem_append_left _ hbatch, hid⟩
    · obtain ⟨hsrc, horigin, hin⟩ := hlog.stored b id row hnew
      obtain ⟨batch, hbatch, hid⟩ := hsource b id hsrc
      exact ⟨horigin, List.mem_append_right _ hin, batch, List.mem_append_left _ hbatch, hid⟩
  · intro b e ms n more he hphase m hm
    obtain ⟨hrow, hne⟩ := h.inHand b e ms n more he hphase m hm
    exact ⟨hrow.mono events, hne⟩
  · intro b id m hm
    obtain ⟨hrow, hrest⟩ := h.ingested b id m (hold _ hm (by simp) (by simp))
    exact ⟨hrow.mono events, hrest⟩

/-- Retention only takes rows away. -/
theorem retention (h : LineageInv d s tr) (cutoffIso : String) :
    LineageInv d { s with log := s.log.deleteBefore cutoffIso } tr :=
  { h with rows := fun row hrow => h.rows row (List.mem_of_mem_filter hrow) }

theorem ofAnswers (h : LineageInv d s tr) (answers : HubName → Option SyncAnswer) :
    LineageInv d { s with answers } tr :=
  ⟨h.sites, h.rows, h.inserted, h.unique, h.pages, h.pushed, h.stored, h.inHand, h.ingested⟩

/-- A page that is served goes into the history. -/
theorem servedPage (h : LineageInv d s tr) (b : HubName) (since : Nat) {r : SyncPullResult}
    (hr : ∀ row ∈ r.page, row ∈ s.log.rows) : LineageInv d s (tr ++ [.page b since r]) := by
  -- a page adds no other event
  have hold : ∀ ev ∈ tr ++ [FleetEvent.page b since r], ev ≠ .page b since r → ev ∈ tr := by
    intro ev hev hne
    rw [List.mem_append, List.mem_singleton] at hev
    exact hev.resolve_right hne
  refine ⟨h.sites, ?_, ?_, ?_, ?_, ?_, ?_, ?_, ?_⟩
  · exact fun row hrow => List.mem_append_left _ (h.rows row hrow)
  · exact fun row hrow => h.inserted row (hold _ hrow (by simp))
  · exact fun row row' hrow hrow' =>
      h.unique row row' (hold _ hrow (by simp)) (hold _ hrow' (by simp))
  · intro x c q hq row hrow
    rcases List.mem_append.1 hq with hin | hnew
    · exact List.mem_append_left _ (h.pages x c q hin row hrow)
    · cases List.mem_singleton.1 hnew
      exact List.mem_append_left _ (h.rows row (hr row hrow))
  · exact fun x batch hx => h.pushed x batch (hold _ hx (by simp))
  · intro x id row hx
    obtain ⟨horigin, hin, batch, hbatch, hid⟩ := h.stored x id row (hold _ hx (by simp))
    exact ⟨horigin, List.mem_append_left _ hin, batch, List.mem_append_left _ hbatch, hid⟩
  · intro x e ms n more he hphase m hm
    obtain ⟨hrow, hne⟩ := h.inHand x e ms n more he hphase m hm
    exact ⟨hrow.mono _, hne⟩
  · intro x id m hm
    obtain ⟨hrow, hrest⟩ := h.ingested x id m (hold _ hm (by simp))
    exact ⟨hrow.mono _, hrest⟩

/-- What may reach a hub that pulls: a page that was served to it. -/
def ReadsPages (d : Deployment) (s : Fleet) (tr : List FleetEvent) (name : HubName)
    (i : SiteInput) : Prop :=
  ∀ e body save, i = .cloud (some body) save → (s.sites name).engine = some e →
    e.phase = .pulling → ∃ r, .page name e.cursors.pullCursor r ∈ tr ∧
      readAnswer (d.codec name).doubles (.ok r.value) = some body

/-- A hub that waits for an answer about presence does not pull. -/
theorem readsPages_of_awaits {i : SiteInput}
    (h : ∀ body save, i = .cloud (some body) save → Fleet.awaitsPresence (s.sites name) = true) :
    ReadsPages d s tr name i := by
  intro e body save heq he hphase
  have hawaits := h body save heq
  simp [Fleet.awaitsPresence, he, hphase] at hawaits

/-- What a hub takes from a page is of inserted rows of other origins. -/
theorem ofPage (h : LineageInv d s tr) {since : Nat} {r : SyncPullResult}
    (hr : .page name since r ∈ tr) {body : Value}
    (hbody : readAnswer (d.codec name).doubles (.ok r.value) = some body) {m : Message}
    (hm : m ∈ (pullPage body since).messages) : OfRow (d.codec name).doubles tr m := by
  have hpage := h.pages name since r hr
  rw [(pullPage_page hbody (fun row hrow => (h.inserted row (hpage row hrow)).2.1) since).1] at hm
  obtain ⟨row, hrow, hread⟩ := List.mem_filterMap.1 hm
  exact ⟨row, hpage row hrow, hread⟩

/-- **A step of a hub.** -/
theorem stepSite (h : LineageInv d s tr) {i : SiteInput} (hbody : ReadsPages d s tr name i) :
    LineageInv d (s.stepSite d name i).1 (tr ++ (s.stepSite d name i).2) := by
  obtain ⟨hlog, hsites, -⟩ := Fleet.stepSite_fst (d := d) s name i
  have hevents : ∀ ev ∈ (s.stepSite d name i).2, Fleet.HubEvent s name
      ((s.sites name).step (d.codec name) (d.config name) i).2 ev :=
    fun ev hev => Fleet.mem_stepSite_snd hev
  generalize (s.stepSite d name i).2 = events at hevents ⊢
  generalize (s.stepSite d name i).1 = s' at hlog hsites ⊢
  have hself : s'.sites name = ((s.sites name).step (d.codec name) (d.config name) i).1 := by
    rw [hsites, Function.update_self]
  have hother : ∀ b, b ≠ name → s'.sites b = s.sites b := by
    intro b hb
    rw [hsites, Function.update_of_ne hb]
  -- a stream only grows
  have hstream : ∀ b, (s.sites b).stream ⊆ (s'.sites b).stream := by
    intro b
    by_cases hb : b = name
    · subst hb
      rw [hself]
      exact (Site.step_stream _ i).subset
    · rw [hother b hb]
      exact fun _ hx => hx
  -- the new events are appends, pushes and ingestions of this site
  have hold : ∀ ev ∈ tr ++ events, (∀ id, ev ≠ .appended name id) →
      (∀ batch, ev ≠ .pushed name batch) → (∀ id m, ev ≠ .ingested name id m) → ev ∈ tr := by
    intro ev hev h₁ h₂ h₃
    rcases List.mem_append.1 hev with hev | hev
    · exact hev
    · cases hevents ev hev with
      | appended id => exact absurd rfl (h₁ id)
      | pushed batch => exact absurd rfl (h₂ batch)
      | ingested id m => exact absurd rfl (h₃ id m)
  obtain ⟨t, hinv⟩ := h.sites name
  have hinv' := hinv.step i
  refine ⟨?_, ?_, ?_, ?_, ?_, ?_, ?_, ?_, ?_⟩
  · intro b
    by_cases hb : b = name
    · subst hb
      exact ⟨_, hself ▸ hinv'⟩
    · rw [hother b hb]
      exact h.sites b
  · intro row hrow
    rw [hlog] at hrow
    exact List.mem_append_left _ (h.rows row hrow)
  · intro row hrow
    rw [hlog]
    exact h.inserted row (hold _ hrow (by simp) (by simp) (by simp))
  · intro row row' hrow hrow'
    exact h.unique row row' (hold _ hrow (by simp) (by simp) (by simp))
      (hold _ hrow' (by simp) (by simp) (by simp))
  · intro b since q hq row hrow
    exact List.mem_append_left _
      (h.pages b since q (hold _ hq (by simp) (by simp) (by simp)) row hrow)
  · intro b batch hb x hx
    -- a batch holds rows that stand in the outbox of its engine
    rcases List.mem_append.1 hb with hb | hb
    · obtain ⟨entry, hentry, hrest⟩ := h.pushed b batch hb x hx
      exact ⟨entry, hstream b hentry, hrest⟩
    · cases hevents _ hb with
      | pushed batch hout =>
        obtain ⟨e, he, hsub⟩ := Site.step_push hout
        rw [hself, ← d.hub_eq]
        exact (hinv'.outbox he).2 x (hsub hx)
  · intro b id row hrow
    obtain ⟨horigin, hin, batch, hbatch, hid⟩ :=
      h.stored b id row (hold _ hrow (by simp) (by simp) (by simp))
    exact ⟨horigin, List.mem_append_left _ hin, batch, List.mem_append_left _ hbatch, hid⟩
  · intro b e' ms n more he' hphase' m hm
    by_cases hb : b = name
    · subst hb
      rw [hself] at he'
      -- the last case is a page that was read: its rows come from the log
      rcases Site.step_ingesting he' hphase' with
        he | ⟨e, m', he, hphase, -⟩ | ⟨e, body, save, rfl, he, hphase, -, -, rfl⟩
      · obtain ⟨hrow, hne⟩ := h.inHand b e' ms n more he hphase' m hm
        exact ⟨hrow.mono events, hne⟩
      · obtain ⟨hrow, hne⟩ := h.inHand b e _ n more he hphase m (List.mem_cons_of_mem _ hm)
        exact ⟨hrow.mono events, hne⟩
      · obtain ⟨r, hr, hread⟩ := hbody e body save rfl he hphase
        obtain ⟨hin, hfilter⟩ := List.mem_filter.1 hm
        refine ⟨(h.ofPage hr hread hin).mono events, ?_⟩
        -- a page is filtered of what is the site's own
        intro habs
        rw [habs, (hinv.outbox he).1, d.hub_eq] at hfilter
        simp at hfilter
    · rw [hother b hb] at he'
      obtain ⟨hrow, hne⟩ := h.inHand b e' ms n more he' hphase' m hm
      exact ⟨hrow.mono events, hne⟩
  · intro b id m hm
    rcases List.mem_append.1 hm with hm | hm
    · obtain ⟨hrow, hne, origin, horigin, hempty, hin⟩ := h.ingested b id m hm
      exact ⟨hrow.mono events, hne, origin, horigin, hempty, hstream b hin⟩
    · cases hevents _ hm with
      | ingested _ _ hout =>
        rcases Site.step_ingested (d.codec name) (d.config name) (s.sites name) i with
          ⟨hno, -⟩ | ⟨e, id', m', ms, n, more, origin, outs, he, hphase, horigin, hempty, -, -,
            hgrows, houts, hno⟩
        · exact absurd hout (hno id m)
        · rw [houts, List.mem_cons] at hout
          rcases hout with heq | hout
          · -- the ingested message was the head of the page in hand
            cases heq
            obtain ⟨hrow, hne⟩ := h.inHand name e _ n more he hphase m List.mem_cons_self
            refine ⟨hrow.mono events, hne, origin, horigin, hempty, ?_⟩
            rw [hself, hgrows]
            exact List.mem_append_right _ List.mem_cons_self
          · exact absurd hout (hno id m)

end LineageInv

/-! ### Every step -/

namespace FleetInv

theorem stepSite (h : FleetInv d s tr) {i : SiteInput}
    (hbody : LineageInv.ReadsPages d s tr name i) :
    FleetInv d (s.stepSite d name i).1 (tr ++ (s.stepSite d name i).2) :=
  { h.toRequestInv.stepSite i, h.toLineageInv.stepSite hbody with }

theorem logStep (h : FleetInv d s tr) {Source : HubName → StreamId → Prop} {log' : BusLog}
    (hlog : Fleet.LogStep Source s.log log' events)
    (hsource : ∀ b id, Source b id → ∃ batch, .pushed b batch ∈ tr ∧ id ∈ batch.map Prod.fst) :
    FleetInv d { s with log := log' } (tr ++ events) :=
  { (h.toRequestInv.mono events).ofLog log', h.toLineageInv.logStep hlog hsource with }

theorem servePush (h : FleetInv d s tr) {batch : List (StreamId × Message)}
    (hbatch : .pushed name batch ∈ tr) (moment : Moment) :
    FleetInv d (s.servePush d name batch moment).1
      (tr ++ (s.servePush d name batch moment).2.2) := by
  apply h.logStep (Fleet.servePush_logStep s name batch moment)
  rintro b id ⟨rfl, hid⟩
  exact ⟨batch, hbatch, hid⟩

theorem serve (h : FleetInv d s tr) (name : HubName) (moment : Moment) :
    FleetInv d (s.serve d name moment).1 (tr ++ (s.serve d name moment).2) := by
  unfold Fleet.serve
  split
  case h_1 => simpa using h
  case h_2 batch hpending =>
    -- what is asked for was pushed before
    have hpush := h.servePush (h.pending name batch hpending) moment
    have hanswer := hpush.toRequestInv.answer (b := name)
      (a := .plain (s.servePush d name batch moment).2.1)
      (fun _ _ => ⟨batch, hpending⟩) (by simp)
    exact { hanswer, hpush.toLineageInv.ofAnswers _ with }
  case h_3 since hpending =>
    split
    case h_1 =>
      have hrows : ∀ row ∈ (s.log.syncPull since (some name.text) (pullLimit (d.pageSize name))).page,
          row ∈ s.log.rows := fun row hrow =>
        ((syncPull_covers s.log since name.text_ne (Nat.le_max_left 1 _)).sound row hrow).1
      have hpage := h.toLineageInv.servedPage name since hrows
      have hanswer := (h.toRequestInv.mono [.page name since
          (s.log.syncPull since (some name.text) (pullLimit (d.pageSize name)))]).answer (b := name)
        (a := .page (s.log.syncPull since (some name.text) (pullLimit (d.pageSize name)))) (by simp) (by
          intro r hr
          cases hr
          exact ⟨since, hpending, List.mem_append_right _ List.mem_cons_self⟩)
      exact { hanswer, hpage.ofAnswers _ with }
    case h_2 status _ =>
      have hanswer := h.toRequestInv.answer (b := name) (a := .plain (.error status)) (by simp)
        (by simp)
      rw [List.append_nil]
      exact { hanswer, h.toLineageInv.ofAnswers _ with }

/-- What is delivered to a hub that pulls is the page of its pull. -/
theorem deliver (h : FleetInv d s tr) {answer : SyncAnswer} (hanswer : s.answers name = some answer)
    (save : SaveResult) :
    LineageInv.ReadsPages d { s with answers := Function.update s.answers name none } tr name
      (.cloud (readAnswer (d.codec name).doubles answer.response) save) := by
  intro e body save' heq he hphase
  obtain ⟨hbody, -⟩ := SiteInput.cloud.inj heq
  have hpending := h.pulling name e he hphase
  cases answer with
  | plain response =>
    cases response with
    | ok body' =>
      obtain ⟨batch, hbatch⟩ := h.plain name body' hanswer
      rw [hpending] at hbatch
      cases hbatch
    | error status => cases hbody
  | page r =>
    obtain ⟨since, hsince, hpage⟩ := h.page name r hanswer
    rw [hpending] at hsince
    cases hsince
    exact ⟨r, hpage, hbody⟩

/-- **Every step keeps the invariant.** -/
theorem step (h : FleetInv d s tr) (i : FleetInput) :
    FleetInv d (s.step d i).1 (tr ++ (s.step d i).2) := by
  cases i with
  | site name i =>
    rcases Fleet.step_site (d := d) s name i with ⟨hstep, hawaits⟩ | hstep
    · rw [hstep]
      exact h.stepSite (LineageInv.readsPages_of_awaits hawaits)
    · rw [hstep]
      simpa using h
  | serve name moment => exact h.serve name moment
  | serveLate k moment =>
    simp only [Fleet.step, Fleet.serveLate]
    split
    case h_1 name batch hsent =>
      exact h.servePush (h.sent name batch (List.mem_of_getElem? hsent)) moment
    case h_2 => simpa using h
  | deliver name save =>
    simp only [Fleet.step]
    -- a delivery takes the answer out before the site reads it
    split
    case h_1 answer hanswer =>
      have hdrop : FleetInv d { s with answers := Function.update s.answers name none } tr :=
        { h.toRequestInv.dropAnswer name, h.toLineageInv.ofAnswers _ with }
      exact hdrop.stepSite (h.deliver hanswer save)
    case h_2 => simpa using h
  | insert fields originHub now fault =>
    obtain ⟨hfst, hlog⟩ := Fleet.insert_logStep (d := d) s fields originHub now fault
    simp only [Fleet.step]
    rw [hfst]
    exact h.logStep hlog (by simp)
  | retention cutoffIso =>
    simp only [Fleet.step, List.append_nil]
    exact { h.toRequestInv.ofLog _, h.toLineageInv.retention cutoffIso with }

end FleetInv

/-- The invariant holds in every run. -/
theorem fleetInv_exec (d : Deployment) (is : List FleetInput) :
    FleetInv d ((Fleet.machine d).exec {} is).1 ((Fleet.machine d).exec {} is).2 :=
  (Fleet.machine d).exec_induction (P := fun _ s tr => FleetInv d s tr) (FleetInv.initial d)
    (fun _ _ _ i h => h.step i) is

end AgentHub.Network
