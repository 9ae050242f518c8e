import AgentHub.Stores.Consistency

/-!
# Repairing the archive

`reconcile` compares the stores, reads the messages that only the stream has a second time, now whole,
and inserts them into PostgreSQL, where a row that clashes with one that is there is left out.
-/

namespace AgentHub.Stores

open AgentHub.Export (Row parseUuid)
open AgentHub.Hub (MessageStream)
open AgentHub.Json (Value)
open AgentHub.Outbox (Uuid)
open AgentHub.Sync (Entry StreamId Sensitivity)
open AgentHub.Validation (AgentBusError)

variable (lib : StoreLibrary)

/-! ### Inserting -/

/-- `origin_seq_sql`. -/
def originSeqSql : Option UInt64 → Except AgentBusError (Option Int64)
  | none => .ok none
  | some seq =>
    if Postgres.fitsI64 seq.toNat then .ok (some (Int64.ofNat seq.toNat))
    else .error (.internal
      "origin_seq exceeds i64: out of range integral type conversion attempted")

/-- The row of a message whose id and time have been read. -/
def rowOf (m : Sync.Message) (id : Uuid) (t : Int) (originSeq : Option Int64) : Row where
  id := id
  timestampUtc := sqlTime t
  protocolVersion := m.protocolVersion
  sender := m.fromAgent
  recipient := m.toAgent
  topic := m.topic
  body := m.body
  threadId := m.threadId
  tags := some (.arr (m.tags.map .str))
  priority := m.priority
  requestAck := m.requestAck
  replyTo := m.replyTo.getD ""
  metadata := some m.metadata
  streamId := m.streamId
  clientMsgId := m.clientMsgId
  originHub := m.originHub
  originSeq := originSeq
  hlc := m.hlc
  sensitivity := m.sensitivity.map Sensitivity.asStr

theorem distinct_concat {archive : Archive} {row : Row}
    (h : archive.rows.any (fun r => clashes row r) = false) :
    (archive.rows ++ [row]).Pairwise fun r r' => clashes r' r = false := by
  rw [List.pairwise_append]
  refine ⟨archive.distinct, List.pairwise_singleton _ _, fun r hr r' hr' => ?_⟩
  rw [List.mem_singleton.1 hr']
  have hnone := List.any_eq_false.1 h r hr
  simpa using hnone

/-- `INSERT … ON CONFLICT DO NOTHING`, with the archive it leaves and whether it inserted the row. -/
def insertRow (archive : Archive) (row : Row) : Except AgentBusError (Archive × Bool) :=
  if lib.takes row then
    if h : archive.rows.any (fun r => clashes row r) = false then
      if lib.hasRoom row then .ok (⟨archive.rows ++ [row], distinct_concat h⟩, true)
      else .error (.internal "db error: index row size exceeds btree maximum")
    else .ok (archive, false)
  else .error (.internal "db error: invalid byte sequence for encoding")

/-- One message of `sync_redis_to_postgres`. -/
def syncMessage (archive : Archive) (m : Sync.Message) : Except AgentBusError (Archive × Bool) :=
  match parseUuid m.id, parseTimestampUtc lib m.timestampUtc with
  | some id, some t => do
    let originSeq ← originSeqSql m.originSeq
    insertRow lib archive (rowOf m id t originSeq)
  | _, _ => .ok (archive, false)

/-- `sync_redis_to_postgres`: the archive it leaves, and how many rows it inserted. -/
def syncRedisToPostgres : Archive → Nat → List Sync.Message → Archive × Except AgentBusError Nat
  | archive, inserted, [] => (archive, .ok inserted)
  | archive, inserted, m :: messages =>
    match syncMessage lib archive m with
    | .error e => (archive, .error e)
    | .ok (archive, new) => syncRedisToPostgres archive (if new then inserted + 1 else inserted) messages

/-! ### The plan -/

/-- `plan_redis_to_pg`. -/
def planRedisToPg (redis pg : List String) : List String := idSet (redis.filter fun id => id ∉ pg)

/-- `is_wanted`. -/
def isWanted (wanted : List String) (id : String) : Bool :=
  match parseUuid id with
  | some parsed => parsed.toString ∈ wanted
  | none => id ∈ wanted

/-- The message of an entry, if it is wanted and in the window. -/
def wantedMessage (wanted : List String) (lo hi : Int) (entry : Entry) : Option Sync.Message :=
  let m := entry.message lib.codec
  if isWanted wanted m.id ∧ ((parseTimestampUtc lib m.timestampUtc).any fun t => lo ≤ t ∧ t ≤ hi) then
    some m
  else none

/-- `fetch_redis_messages`. -/
def fetchRedisMessages (fuel : Nat) (stream : MessageStream) (wanted : List String) (lo hi : Int) :
    Option (Except AgentBusError (List Sync.Message)) :=
  loop (rangeRound stream fun found entry => found ++ (wantedMessage lib wanted lo hi entry).toList)
    fuel (.at (startId lo), [])

/-! ### The run -/

structure ReconcileReport where
  applied : Bool
  plannedRedisToPg : Nat
  inserted : Nat
  pgOnlyNotRestorable : Nat
  before : StoreCheck
  after : Option StoreCheck

/-- What a run asks for. -/
structure ReconcileCall where
  scope : Scope
  settle : Int
  maxListed : Nat
  apply : Bool
  maxInsert : Nat

/-- What is left of a run after its inserts: the second comparison. -/
def finish (fuel : Nat) (stream : MessageStream) (call : ReconcileCall) (scan : StoreScan)
    (now : Int) (archive : Archive) (inserted : Nat) :
    Option (Archive × Except AgentBusError ReconcileReport) :=
  let before := scan.check lib call.maxListed
  match scanStores lib fuel stream archive call.scope call.settle now with
  | none => none
  | some (.error e) => some (archive, .error e)
  | some (.ok rescan) => some (archive, .ok
      { applied := true
        plannedRedisToPg := (planRedisToPg scan.redisIds scan.pgIds).length
        inserted := inserted
        pgOnlyNotRestorable := before.report.pgOnlyCount
        before := before
        after := some (rescan.check lib call.maxListed) })

/-- `reconcile`, whose two comparisons are made at two times; no result is a loop that has not come to
its end within the fuel. -/
def reconcile (fuel : Nat) (stream : MessageStream) (archive : Archive) (call : ReconcileCall)
    (now later : Int) : Option (Archive × Except AgentBusError ReconcileReport) :=
  match scanStores lib fuel stream archive call.scope call.settle now with
  | none => none
  | some (.error e) => some (archive, .error e)
  | some (.ok scan) =>
    let before := scan.check lib call.maxListed
    let plan := planRedisToPg scan.redisIds scan.pgIds
    if !call.apply then
      some (archive, .ok
        { applied := false
          plannedRedisToPg := plan.length
          inserted := 0
          pgOnlyNotRestorable := before.report.pgOnlyCount
          before := before
          after := none })
    else if call.maxInsert < plan.length then
      some (archive, .error (.internal
        s!"refusing to backfill {plan.length} messages: more than --max-insert {call.maxInsert}; narrow the window or raise the cap after reviewing the dry run"))
    else if plan.isEmpty then finish lib fuel stream call scan later archive 0
    else
      match fetchRedisMessages lib fuel stream plan scan.lo scan.hi with
      | none => none
      | some (.error e) => some (archive, .error e)
      | some (.ok messages) =>
        match syncRedisToPostgres lib archive 0 messages with
        | (archive, .error e) => some (archive, .error e)
        | (archive, .ok inserted) => finish lib fuel stream call scan later archive inserted

end AgentHub.Stores
