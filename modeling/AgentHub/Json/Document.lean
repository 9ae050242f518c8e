import AgentHub.Json.Text

/-!
# Documents as `serde_json::Value` holds them

Reading a text into a `Value` does two things beyond its grammar: an object becomes a map ordered
by key, in which the last of two equal keys stays, and a number that is not a 64-bit integer
becomes a double.  `Doubles` is the part of the number conversion that is not modelled: the text the
writer gives the double that is read.  That such a text is read as itself is an assumption: the
library promises it only with its feature `float_roundtrip`, and may otherwise be one unit off in
the last place.
-/

namespace AgentHub.Json

/-- Conversion between decimal tokens and doubles. -/
structure Doubles where
  /-- The writer's text of the double a token is read as; `none` beyond the range of doubles. -/
  read : FloatText → Option FloatText
  /-- The same for an integer token. -/
  readInt : Int → FloatText
  /-- Assumed of the library: the double that is read back from its own text is the same. -/
  read_read : ∀ x y, read x = some y → read y = some y
  read_readInt : ∀ n, read (readInt n) = some (readInt n)

/-- The integers a `serde_json::Number` holds as integers. -/
def isMachineInt (n : Int) : Bool := -(2 ^ 63) ≤ n && n < 2 ^ 64

variable (d : Doubles)

mutual

/-- The value a document is read into. -/
def document : Value → Option Value
  | .int n => some (if isMachineInt n then .int n else .float (d.readInt n))
  | .float x => (d.read x).map .float
  | .arr items => (documentItems items).map .arr
  | .obj fields => (documentFields fields).map fun m => .obj (Fields.ofPairs m)
  | v => some v

def documentItems : List Value → Option (List Value)
  | [] => some []
  | v :: vs => do
    let v ← document v
    let vs ← documentItems vs
    return v :: vs

def documentFields : List (String × Value) → Option (List (String × Value))
  | [] => some []
  | (k, v) :: vs => do
    let v ← document v
    let vs ← documentFields vs
    return (k, v) :: vs

end

/-- `serde_json::from_str::<Value>`, with the kind of its errors dropped. -/
def readDocument (cs : List Char) : Option Value := (fromStr cs).toOption.bind (document d)

end AgentHub.Json
