import Mathlib.Algebra.Order.Ring.Int
import Mathlib.Data.List.Basic
import Mathlib.Data.List.MinMax
import Mathlib.Order.Lattice

/-!
# JSON values

`Value` is a JSON document as `serde_json::Value` holds it: a number is an integer or a decimal
text, and an object is its fields in the order a writer emits them.  Integers are unbounded here;
`asU64` and `asI64` apply the machine ranges where a reader asks for them.

`depth` counts nested arrays and objects, which is what a recursion limit of a reader bounds.
-/

namespace AgentHub.Json

/-- The characters a number token is made of. -/
def isNumberChar (c : Char) : Bool :=
  c.isDigit || c == '-' || c == '+' || c == '.' || c == 'e' || c == 'E'

/-- A number token that is not an integer: it carries a fraction or an exponent. -/
def isFloatToken (cs : List Char) : Bool :=
  cs.all isNumberChar && cs.any fun c => c == '.' || c == 'e' || c == 'E'

/-- The decimal text a writer gives a floating-point number. -/
structure FloatText where
  text : List Char
  isToken : isFloatToken text = true
  deriving DecidableEq

inductive Value where
  | null
  | bool (b : Bool)
  | int (n : Int)
  | float (x : FloatText)
  | str (s : String)
  | arr (items : List Value)
  | obj (fields : List (String × Value))

namespace Value

/-! ### Decidable equality

The derive handler does not reach through the nested lists, so the three comparisons are written
out, each with the proof that it decides equality. -/

mutual

def beq : Value → Value → Bool
  | .null, .null => true
  | .bool a, .bool b => a == b
  | .int a, .int b => a == b
  | .float a, .float b => a == b
  | .str a, .str b => a == b
  | .arr a, .arr b => beqItems a b
  | .obj a, .obj b => beqFields a b
  | _, _ => false

def beqItems : List Value → List Value → Bool
  | [], [] => true
  | v :: vs, w :: ws => beq v w && beqItems vs ws
  | _, _ => false

def beqFields : List (String × Value) → List (String × Value) → Bool
  | [], [] => true
  | (k, v) :: vs, (l, w) :: ws => k == l && beq v w && beqFields vs ws
  | _, _ => false

end

mutual

theorem beq_iff (v w : Value) : beq v w = true ↔ v = w := by
  cases v <;> cases w <;> simp [beq, beqItems_iff, beqFields_iff]

theorem beqItems_iff (vs ws : List Value) : beqItems vs ws = true ↔ vs = ws := by
  cases vs <;> cases ws <;> simp [beqItems, beq_iff, beqItems_iff]

theorem beqFields_iff (vs ws : List (String × Value)) : beqFields vs ws = true ↔ vs = ws := by
  rcases vs with _ | ⟨⟨k, v⟩, vs⟩ <;> rcases ws with _ | ⟨⟨l, w⟩, ws⟩ <;>
    simp [beqFields, beq_iff, beqFields_iff]

end

instance : DecidableEq Value := fun v w => decidable_of_iff (beq v w = true) (beq_iff v w)

instance : Inhabited Value := ⟨.null⟩

/-! ### Reading a value -/

def asStr : Value → Option String
  | .str s => some s
  | _ => none

def asBool : Value → Option Bool
  | .bool b => some b
  | _ => none

def asArray : Value → Option (List Value)
  | .arr items => some items
  | _ => none

/-- `Value::as_u64`: integers of the unsigned 64-bit range only. -/
def asU64 : Value → Option Nat
  | .int n => if 0 ≤ n ∧ n < 2 ^ 64 then some n.toNat else none
  | _ => none

/-- `Value::as_i64`: integers of the signed 64-bit range only. -/
def asI64 : Value → Option Int
  | .int n => if -(2 ^ 63) ≤ n ∧ n < 2 ^ 63 then some n else none
  | _ => none

/-! ### Nesting -/

mutual

/-- How many arrays and objects are nested in the value. -/
def depth : Value → Nat
  | .arr items => depthItems items + 1
  | .obj fields => depthFields fields + 1
  | _ => 0

def depthItems : List Value → Nat
  | [] => 0
  | v :: vs => max (depth v) (depthItems vs)

def depthFields : List (String × Value) → Nat
  | [] => 0
  | (_, v) :: vs => max (depth v) (depthFields vs)

end

end Value

/-! ### Objects

A `serde_json::Map` is a map ordered by key; a value keeps its fields in that order. -/

/-- The fields of a JSON object. -/
abbrev Fields := List (String × Value)

namespace Fields

def get (m : Fields) (key : String) : Option Value := List.lookup key m

def containsKey (m : Fields) (key : String) : Bool := (get m key).isSome

/-- `Map::remove`. -/
def remove (m : Fields) (key : String) : Fields := m.filter fun kv => kv.1 != key

/-- `Map::insert`: a present key keeps its place, an absent one goes before the first larger. -/
def insert : Fields → String → Value → Fields
  | [], key, v => [(key, v)]
  | (k, w) :: m, key, v =>
    if key < k then (key, v) :: (k, w) :: m
    else if key = k then (key, v) :: m
    else (k, w) :: insert m key v

def keys (m : Fields) : List String := m.map Prod.fst

/-- The fields that are present, of a structure that leaves absent ones out. -/
def compact (kvs : List (String × Option Value)) : Fields :=
  kvs.filterMap fun kv => kv.2.map fun v => (kv.1, v)

/-- A `Map` read from fields in any order; of two with one key the later stays. -/
def ofPairs (kvs : List (String × Value)) : Fields :=
  kvs.foldl (fun m kv => insert m kv.1 kv.2) []

end Fields

/-- `Value::get` with a key. -/
def Value.field? (v : Value) (key : String) : Option Value :=
  match v with
  | .obj m => Fields.get m key
  | _ => none

end AgentHub.Json
