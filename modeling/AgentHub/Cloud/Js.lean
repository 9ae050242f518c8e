import AgentHub.Hub.Redis

/-!
# JavaScript values, strings and patterns

The parts of the language the Worker is written in that decide what it stores: `String` methods,
`JSON.parse` and `JSON.stringify`, conversion to text, and the regular expressions it tests.

A JavaScript value is a `Value` whose numbers are written as `JSON.stringify` writes them.  Every
number is a double, so reading a document maps its numbers: an integer of up to 53 bits is kept, a
larger one becomes the shortest decimal of the double nearest to it, and what is not an integer
below 10^21 is left to `Numbers`.
-/

namespace AgentHub.Js

open AgentHub.Json AgentHub.Hub

/-! ### Strings -/

/-- `WhiteSpace` and `LineTerminator`, which `trim` and `\s` share.  Unlike Rust's whitespace it
has U+FEFF and lacks U+0085. -/
def isSpace (c : Char) : Bool :=
  let n := c.toNat
  (9 ≤ n && n ≤ 13) || n == 32 || n == 0xA0 || n == 0x1680 || (0x2000 ≤ n && n ≤ 0x200A) ||
    n == 0x2028 || n == 0x2029 || n == 0x202F || n == 0x205F || n == 0x3000 || n == 0xFEFF

/-- `String.prototype.trim`. -/
def trim (s : String) : String :=
  String.ofList ((s.toList.dropWhile isSpace).reverse.dropWhile isSpace).reverse

/-- `String.prototype.length`, in UTF-16 code units. -/
def length (s : String) : Nat := (s.toList.map fun c => if c.toNat < 0x10000 then 1 else 2).sum

/-! ### Numbers -/

/-- Conversions of the numbers that are not integers below 10^21. -/
structure Numbers where
  /-- What `JSON.stringify` writes for the double a decimal token is read as. -/
  ofFloat : FloatText → Value
  /-- The same for an integer token of that size. -/
  ofInt : Int → Value

/-- Of the two multiples of `10 ^ k` around `x`, the nearer one that is read as `x`. -/
def roundedTo (x k : Nat) : Option Nat :=
  let s := x / 10 ^ k
  let lo := s * 10 ^ k
  let hi := (s + 1) * 10 ^ k
  match luaNumber lo == x, luaNumber hi == x with
  | true, true => some (if 2 * x < lo + hi ∨ (2 * x = lo + hi ∧ s % 2 = 0) then lo else hi)
  | true, false => some lo
  | false, true => some hi
  | false, false => none

/-- The shortest decimal that is read as the integer double `x`. -/
def shortest (x : Nat) : Nat := ((List.range 22).reverse.findSome? (roundedTo x)).getD x

/-- The text of the double nearest to an integer below 10^21. -/
def ofSmallInt (n : Int) : Int :=
  if n.natAbs ≤ 2 ^ 53 then n else n.sign * shortest (luaNumber n).natAbs

variable (numbers : Numbers)

def ofInt (n : Int) : Value :=
  if n.natAbs < 10 ^ 21 then .int (ofSmallInt n) else numbers.ofInt n

/-- `Number.isInteger`.  What is written with a positive exponent is an integer. -/
def isInteger : Value → Bool
  | .int _ => true
  | .float x => Text.containsChars ['e', '+'] x.text
  | _ => false

def isNegative : Value → Bool
  | .int n => n < 0
  | .float x => x.text.head? == some '-'
  | _ => false

/-! ### Documents -/

/-- Setting a property: a present one keeps its place. -/
def setProperty : Fields → String → Value → Fields
  | [], key, v => [(key, v)]
  | (k, w) :: m, key, v => if k = key then (key, v) :: m else (k, w) :: setProperty m key v

mutual

/-- `JSON.parse` of the text of a document. -/
def parse : Value → Value
  | .int n => ofInt numbers n
  | .float x => numbers.ofFloat x
  | .arr items => .arr (parseItems items)
  | .obj fields =>
    .obj ((parseFields fields).foldl (fun m kv => setProperty m kv.1 kv.2) [])
  | v => v

def parseItems : List Value → List Value
  | [] => []
  | v :: vs => parse v :: parseItems vs

def parseFields : List (String × Value) → List (String × Value)
  | [] => []
  | (k, v) :: vs => (k, parse v) :: parseFields vs

end

/-- The array index a property name is, if it is one. -/
def arrayIndex (key : String) : Option Nat :=
  let n := Nat.ofDigitChars 10 key.toList 0
  if key.toList.all Char.isDigit ∧ Nat.toDigits 10 n = key.toList ∧ n < 2 ^ 32 - 1 then some n
  else none

/-- Properties in the order they are enumerated: array indices first. -/
def ownProperties (fields : Fields) : Fields :=
  (fields.filter fun kv => (arrayIndex kv.1).isSome).mergeSort
      (fun a b => decide ((arrayIndex a.1).getD 0 ≤ (arrayIndex b.1).getD 0)) ++
    fields.filter fun kv => (arrayIndex kv.1).isNone

mutual

def ordered : Value → Value
  | .arr items => .arr (orderedItems items)
  | .obj fields => .obj (ownProperties (orderedFields fields))
  | v => v

def orderedItems : List Value → List Value
  | [] => []
  | v :: vs => ordered v :: orderedItems vs

def orderedFields : List (String × Value) → List (String × Value)
  | [] => []
  | (k, v) :: vs => (k, ordered v) :: orderedFields vs

end

/-- `JSON.stringify`. -/
def stringify (v : Value) : String := String.ofList (print (ordered v))

/-! ### Conversions -/

mutual

/-- `String(value)`. -/
def toText : Value → String
  | .str s => s
  | .arr items => Text.join "," (toTexts items)
  | .obj _ => "[object Object]"
  | v => String.ofList (print v)

/-- The elements of an array as `join` writes them. -/
def toTexts : List Value → List String
  | [] => []
  | .null :: vs => "" :: toTexts vs
  | v :: vs => toText v :: toTexts vs

end

/-- Whether a property, `none` where it is undefined, counts as true. -/
def truthy : Option Value → Bool
  | none | some .null | some (.bool false) | some (.str "") | some (.int 0) => false
  | _ => true

/-- A property for `??`: `undefined` and `null` are no value. -/
def given : Option Value → Option Value
  | some .null => none
  | v => v

/-! ### Regular expressions -/

/-- The expressions the Worker uses: character sets with repetition counts. -/
inductive Regex where
  | set (p : Char → Bool) (min : Nat) (max : Option Nat)
  | boundary
  | seq (a b : Regex)
  | alt (a b : Regex)

namespace Regex

/-- A place in a text: the character before it and the text after it. -/
abbrev Place := Option Char × List Char

def isWord (c : Char) : Bool := c.isAlphanum || c == '_'

/-- The places at which a match of the expression from a place can end. -/
def run : Regex → Place → List Place
  | .set p min max, (before, cs) =>
    let most := (cs.takeWhile p).length
    let most := (max.map fun n => Nat.min n most).getD most
    ((List.range (most + 1)).filter fun k => min ≤ k).map fun k =>
      ((cs.take k).getLast? <|> before, cs.drop k)
  | .boundary, (before, cs) =>
    if before.any isWord ≠ cs.head?.any isWord then [(before, cs)] else []
  | .seq a b, place => (a.run place).flatMap b.run
  | .alt a b, place => a.run place ++ b.run place

/-- Whether there is a match from some place on. -/
def testFrom (r : Regex) : Option Char → List Char → Bool
  | before, [] => !(r.run (before, [])).isEmpty
  | before, c :: cs => !(r.run (before, c :: cs)).isEmpty || testFrom r (some c) cs

def test (r : Regex) (s : String) : Bool := testFrom r none s.toList

def all : List Regex → Regex
  | [] => .set (fun _ => false) 0 (some 0)
  | r :: rs => .seq r (all rs)

def one (p : Char → Bool) : Regex := .set p 1 (some 1)

/-- A word, in either case of its letters. -/
def word (s : String) : Regex := all (s.toList.map fun c => one fun d => d.toLower == c.toLower)

def digits (min : Nat) (max : Option Nat) : Regex := .set Char.isDigit min max

end Regex

end AgentHub.Js
