import AgentHub.Backward
import AgentHub.Cloud.Store

/-!
# Reading the messages of the cloud

`listMessages` of `BusLog`: the filters on columns are part of the query, the tags are looked at in
the rows it returns, and the rows are read in pages from the newest down.  Before the first page the
candidates of each index are counted, and an index with few of them is the access path.
-/

namespace AgentHub.Cloud

open AgentHub.Json AgentHub.Paging

structure ReadMessagesQuery where
  agent : Option String
  fromAgent : Option String
  sinceMs : Int
  limit : Nat
  includeBroadcast : Bool
  topic : Option String
  threadId : Option String
  requiredTags : List String
  repo : Option String
  session : Option String

def maxTagScanRows : Nat := 10000

def sparseLimit : Nat := 32

/-- `Number.MAX_SAFE_INTEGER`. -/
def maxSafeInteger : Nat := 2 ^ 53 - 1

namespace ReadMessagesQuery

/-- `new Date(since_ms).toISOString()`, which throws for what is no time value. -/
def cutoffIso (query : ReadMessagesQuery) : Option String :=
  if query.sinceMs.natAbs ≤ maxTime then some (toISOString query.sinceMs) else none

/-- The tags of the query, with those of its repository and session unless they are empty. -/
def tags (query : ReadMessagesQuery) : List String :=
  query.requiredTags ++
    ((query.repo.filter fun repo => !repo.isEmpty).map fun repo => s!"repo:{repo}").toList ++
    ((query.session.filter fun session => !session.isEmpty).map fun session =>
      s!"session:{session}").toList

/-- `to_agent = ?`, or `to_agent IN (?, 'all')`. -/
def toAgentClause (query : ReadMessagesQuery) (agent : String) (row : Row) : Bool :=
  row.toAgent = agent || (query.includeBroadcast && row.toAgent = "all")

/-- The filters of the `WHERE` clause but for the sequence number. -/
def matchesColumns (query : ReadMessagesQuery) (cutoffIso : String) (row : Row) : Bool :=
  decide (cutoffIso ≤ row.timestampUtc) &&
    (query.fromAgent.all fun name => row.fromAgent = name) &&
    (query.agent.all fun name => query.toAgentClause name row) &&
    (query.topic.all fun topic => row.topic = topic) &&
    (query.threadId.all fun threadId => row.threadId = some threadId)

/-- The filter that is applied to the rows of a page. -/
def matchesTags (query : ReadMessagesQuery) (row : Row) : Bool :=
  query.tags.all fun tag => row.tags.contains tag

def pageSize (query : ReadMessagesQuery) : Nat := max (query.limit * 5) 200

end ReadMessagesQuery

/-! ### Access paths -/

inductive MessageIndex where
  | messagesToTs
  | messagesFromTs
  deriving DecidableEq, Repr

/-- The order in which the store visits the rows by an index. -/
structure IndexOrder where
  visit : MessageIndex → List Row → List Row
  perm : ∀ index rows, (visit index rows).Perm rows

/-- The indexes a query could be read by, with the clause on their first column. -/
def ReadMessagesQuery.choices (query : ReadMessagesQuery) : List (MessageIndex × (Row → Bool)) :=
  (query.agent.map fun name => (MessageIndex.messagesToTs, query.toAgentClause name)).toList ++
    (query.fromAgent.map fun name =>
      (MessageIndex.messagesFromTs, fun row : Row => decide (row.fromAgent = name))).toList

namespace BusLog

/-- How many rows an index has for a clause, counted up to one more than is few. -/
def probe (log : BusLog) (cutoffIso : String) (clause : Row → Bool) : Nat :=
  ((log.rows.filter fun row => cutoffIso ≤ row.timestampUtc && clause row).take
    (sparseLimit + 1)).length

/-- The index with the fewest candidates, if those are few. -/
def accessPath (log : BusLog) (query : ReadMessagesQuery) (cutoffIso : String) :
    Option MessageIndex :=
  (query.choices.foldl (fun chosen choice =>
    let count := log.probe cutoffIso choice.2
    if count < chosen.2 then (some choice.1, count) else chosen) (none, sparseLimit + 1)).1

/-- `SELECT * … WHERE … ORDER BY seq DESC LIMIT n`: by an index the rows it visits are sorted, and
without one the table is walked from its end. -/
def select (order : IndexOrder) (log : BusLog) (path : Option MessageIndex) (keep : Row → Bool)
    (n : Nat) : List Row :=
  match path with
  | none => (log.rows.reverse.filter keep).take n
  | some index =>
    (((order.visit index log.rows).filter keep).mergeSort fun a b => decide (b.seq ≤ a.seq)).take n

/-- One page: the newest rows of the query below a sequence number. -/
def readPage (order : IndexOrder) (log : BusLog) (path : Option MessageIndex)
    (query : ReadMessagesQuery) (cutoffIso : String) (beforeSeq : Option Nat) :
    Except Empty (List Row) :=
  .ok (log.select order path
    (fun row => query.matchesColumns cutoffIso row && beforeSeq.all (row.seq < ·)) query.pageSize)

/-- The loop over the pages on one access path. -/
def listMessagesOn (order : IndexOrder) (log : BusLog) (query : ReadMessagesQuery)
    (cutoffIso : String) (path : Option MessageIndex) : Option (List Value) :=
  let found := walk Row.seq (log.readPage order path query cutoffIso)
    (fun row => if query.matchesTags row then some (rowToMessage row) else none) query.limit
    query.pageSize (fun scanned => maxTagScanRows ≤ scanned) (log.rows.length + 1)
    (some maxSafeInteger) 0 []
  found.bind fun result => result.toOption.map List.reverse

/-- `listMessages`; nothing is returned when the date of the query throws. -/
def listMessages (order : IndexOrder) (log : BusLog) (query : ReadMessagesQuery) :
    Option (List Value) :=
  query.cutoffIso.bind fun cutoffIso =>
    log.listMessagesOn order query cutoffIso (log.accessPath query cutoffIso)

end BusLog

end AgentHub.Cloud
