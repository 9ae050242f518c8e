import AgentHub.Hub.Message

/-!
# Tokens and compacted contexts

`compactContext` keeps the newest messages that a budget of tokens allows, each in its minimised
form.  A count of characters is far below the range of `usize`, so counts and budgets are `Nat`.
-/

namespace AgentHub.Output

open AgentHub.Json AgentHub.Hub

/-! ### Estimates -/

/-- The characters that tell structured text. -/
def isJsonChar (c : Char) : Bool :=
  c == '{' || c == '}' || c == '[' || c == ']' || c == '"' || c == ':'

/-- `estimate_tokens`: 2.5 characters a token in structured text and 4 in other text, rounded up. -/
def estimateTokens (text : String) : Nat :=
  if text = "" then 0
  else
    let total := text.toList.length
    let jsonChars := text.toList.countP isJsonChar
    let denominator := if total * 15 < jsonChars * 100 then 25 else 40
    (total * 10 + (denominator - 1)) / denominator

/-! ### Minimised messages -/

/-- Metadata that says something. -/
def includeMeta : Value → Bool
  | .null => false
  | .obj fields => !fields.isEmpty
  | _ => true

/-- `minimize_message`. -/
def minimizeMessage (msg : Message) : Value :=
  .obj (Fields.ofPairs (Fields.compact
    [("ts", some (.str msg.timestampUtc)),
     ("f", some (.str msg.fromAgent)),
     ("t", some (.str msg.toAgent)),
     ("tp", some (.str msg.topic)),
     ("b", some (.str msg.body)),
     ("p", if msg.priority ≠ "normal" then some (.str msg.priority) else none),
     ("ack", if msg.requestAck then some (.bool true) else none),
     ("rt", msg.replyTo.map .str),
     ("tid", msg.threadId.map .str),
     ("tg", if msg.tags ≠ [] then some (.arr (msg.tags.map .str)) else none),
     ("m", if includeMeta msg.metadata then some msg.metadata else none)]))

/-! ### Compaction -/

/-- What a message costs in its minimised form. -/
def messageCost (msg : Message) : Nat := estimateTokens (jsonText (minimizeMessage msg))

/-- The loop over the messages and their indices, from the newest on: the first is always taken. -/
def collectIndices : List (Message × Nat) → Nat → List Nat → List Nat
  | [], _, indices => indices
  | (msg, i) :: rest, budget, indices =>
    if indices = [] ∨ messageCost msg ≤ budget then
      collectIndices rest (budget - messageCost msg) (indices ++ [i])
    else indices

/-- `compact_context`. -/
def compactContext (messages : List Message) (maxTokens : Nat) : List Value :=
  let indices := collectIndices messages.zipIdx.reverse maxTokens []
  indices.reverse.filterMap fun i => messages[i]?.map minimizeMessage

end AgentHub.Output
