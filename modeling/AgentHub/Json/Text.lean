import AgentHub.Json.Value

/-!
# JSON text

The compact writer and the reader of `serde_json`.  The writer escapes the quote, the backslash
and the control characters, and puts no blank between tokens.  The reader skips blanks, refuses a
raw control character inside a string, and gives up on the array or object that would be nested
one deeper than its limit; its errors tell a document that ended early (`eof`) from a malformed
one (`malformed`) and from one that is nested too deep (`recursionLimit`).

Documents are lists of characters; `toVec` and `fromSlice` are the UTF-8 forms.  `Equiv/RoundTrip`
proves that the reader gives back what the writer wrote.
-/

namespace AgentHub.Json

/-! ### Writing -/

/-- A character inside a JSON string. -/
def escapeChar (c : Char) : List Char :=
  if c = '"' then ['\\', '"']
  else if c = '\\' then ['\\', '\\']
  else if c = '\x08' then ['\\', 'b']
  else if c = '\x0c' then ['\\', 'f']
  else if c = '\n' then ['\\', 'n']
  else if c = '\r' then ['\\', 'r']
  else if c = '\t' then ['\\', 't']
  else if c.toNat < 0x20 then
    ['\\', 'u', '0', '0', Nat.digitChar (c.toNat / 16), Nat.digitChar (c.toNat % 16)]
  else [c]

def escape (cs : List Char) : List Char := cs.flatMap escapeChar

def printString (s : String) : List Char := '"' :: (escape s.toList ++ ['"'])

def printInt : Int → List Char
  | .ofNat n => Nat.toDigits 10 n
  | .negSucc n => '-' :: Nat.toDigits 10 (n + 1)

mutual

/-- `serde_json::to_vec`, before the UTF-8 encoding. -/
def print : Value → List Char
  | .null => ['n', 'u', 'l', 'l']
  | .bool true => ['t', 'r', 'u', 'e']
  | .bool false => ['f', 'a', 'l', 's', 'e']
  | .int n => printInt n
  | .float x => x.text
  | .str s => printString s
  | .arr items => '[' :: (printItems items ++ [']'])
  | .obj fields => '{' :: (printFields fields ++ ['}'])

def printItems : List Value → List Char
  | [] => []
  | [v] => print v
  | v :: w :: vs => print v ++ ',' :: printItems (w :: vs)

def printFields : List (String × Value) → List Char
  | [] => []
  | [(k, v)] => printString k ++ ':' :: print v
  | (k, v) :: w :: vs => printString k ++ ':' :: (print v ++ ',' :: printFields (w :: vs))

end

/-! ### Reading -/

inductive ParseError where
  /-- The document ended before the value did (`Category::Eof`). -/
  | eof
  | malformed
  | recursionLimit
  deriving DecidableEq, Repr

def isBlank (c : Char) : Bool := c == ' ' || c == '\n' || c == '\t' || c == '\r'

def skipBlanks (cs : List Char) : List Char := cs.dropWhile isBlank

def hexValue (c : Char) : Option Nat :=
  if '0' ≤ c ∧ c ≤ '9' then some (c.toNat - 48)
  else if 'a' ≤ c ∧ c ≤ 'f' then some (c.toNat - 87)
  else if 'A' ≤ c ∧ c ≤ 'F' then some (c.toNat - 55)
  else none

/-- The four hexadecimal digits of a `\u` escape. -/
def hex4 : List Char → Except ParseError (Nat × List Char)
  | a :: b :: c :: d :: cs =>
    match hexValue a, hexValue b, hexValue c, hexValue d with
    | some a, some b, some c, some d => .ok (((a * 16 + b) * 16 + c) * 16 + d, cs)
    | _, _, _, _ => .error .malformed
  | _ => .error .eof

/-- The rest of a `\u` escape.  A leading surrogate needs its trailing half at once. -/
def unicodeItem (cs : List Char) : Except ParseError (Char × List Char) := do
  let (hi, cs) ← hex4 cs
  if 0xDC00 ≤ hi ∧ hi < 0xE000 then .error .malformed
  else if 0xD800 ≤ hi ∧ hi < 0xDC00 then
    match cs with
    | '\\' :: 'u' :: cs =>
      let (lo, cs) ← hex4 cs
      if 0xDC00 ≤ lo ∧ lo < 0xE000 then
        .ok (Char.ofNat (0x10000 + (hi - 0xD800) * 0x400 + (lo - 0xDC00)), cs)
      else .error .malformed
    | [] | ['\\'] => .error .eof
    | _ => .error .malformed
  else .ok (Char.ofNat hi, cs)

def escapeItem : List Char → Except ParseError (Char × List Char)
  | [] => .error .eof
  | 'u' :: cs => unicodeItem cs
  | '"' :: cs => .ok ('"', cs)
  | '\\' :: cs => .ok ('\\', cs)
  | '/' :: cs => .ok ('/', cs)
  | 'b' :: cs => .ok ('\x08', cs)
  | 'f' :: cs => .ok ('\x0c', cs)
  | 'n' :: cs => .ok ('\n', cs)
  | 'r' :: cs => .ok ('\r', cs)
  | 't' :: cs => .ok ('\t', cs)
  | _ => .error .malformed

/-- The characters of a string up to its closing quote; `fuel` bounds their number. -/
def parseString : Nat → List Char → Except ParseError (List Char × List Char)
  | 0, _ => .error .eof
  | _ + 1, [] => .error .eof
  | fuel + 1, c :: cs =>
    if c = '"' then .ok ([], cs)
    else if c = '\\' then do
      let (c, cs) ← escapeItem cs
      let (s, cs) ← parseString fuel cs
      .ok (c :: s, cs)
    else if c.toNat < 0x20 then .error .malformed
    else do
      let (s, cs) ← parseString fuel cs
      .ok (c :: s, cs)

/-- The digits of an integer without superfluous leading zeros. -/
def isNatToken (ds : List Char) : Bool :=
  ds.all Char.isDigit && (ds == ['0'] || (ds != [] && ds.head? != some '0'))

/-- An integer token has no plus sign, and `-0` is not one. -/
def parseInt : List Char → Option Int
  | '-' :: ds =>
    if isNatToken ds && ds != ['0'] then some (-(Nat.ofDigitChars 10 ds 0 : Int)) else none
  | ds => if isNatToken ds then some (Nat.ofDigitChars 10 ds 0) else none

def parseNumber (token : List Char) : Except ParseError Value :=
  if h : isFloatToken token = true then .ok (.float ⟨token, h⟩)
  else match parseInt token with
    | some n => .ok (.int n)
    | none => .error .malformed

/-- The rest of a literal name. -/
def parseIdent (name : List Char) (v : Value) (cs : List Char) :
    Except ParseError (Value × List Char) :=
  if name <+: cs then .ok (v, cs.drop name.length)
  else if cs <+: name then .error .eof
  else .error .malformed

/-- A value that is no array and no object; blanks before it have been skipped. -/
def parseScalar : List Char → Except ParseError (Value × List Char)
  | [] => .error .eof
  | 'n' :: cs => parseIdent ['u', 'l', 'l'] .null cs
  | 't' :: cs => parseIdent ['r', 'u', 'e'] (.bool true) cs
  | 'f' :: cs => parseIdent ['a', 'l', 's', 'e'] (.bool false) cs
  | '"' :: cs => do
    let (s, cs) ← parseString (cs.length + 1) cs
    .ok (.str (String.ofList s), cs)
  | cs => do
    let v ← parseNumber (cs.takeWhile isNumberChar)
    .ok (v, cs.dropWhile isNumberChar)

/-- The items of an array after its first, up to the closing bracket. -/
def parseItems (item : List Char → Except ParseError (Value × List Char)) :
    Nat → List Char → Except ParseError (List Value × List Char)
  | 0, _ => .error .eof
  | fuel + 1, cs => do
    let (v, cs) ← item cs
    match skipBlanks cs with
    | [] => .error .eof
    | ',' :: cs =>
      let (vs, cs) ← parseItems item fuel cs
      .ok (v :: vs, cs)
    | ']' :: cs => .ok ([v], cs)
    | _ => .error .malformed

/-- The key of a field and its colon. -/
def parseKey (cs : List Char) : Except ParseError (String × List Char) :=
  match skipBlanks cs with
  | [] => .error .eof
  | '"' :: cs => do
    let (k, cs) ← parseString (cs.length + 1) cs
    match skipBlanks cs with
    | [] => .error .eof
    | ':' :: cs => .ok (String.ofList k, cs)
    | _ => .error .malformed
  | _ => .error .malformed

/-- The fields of an object, up to the closing brace. -/
def parseFields (item : List Char → Except ParseError (Value × List Char)) :
    Nat → List Char → Except ParseError (Fields × List Char)
  | 0, _ => .error .eof
  | fuel + 1, cs => do
    let (k, cs) ← parseKey cs
    let (v, cs) ← item cs
    match skipBlanks cs with
    | [] => .error .eof
    | ',' :: cs =>
      let (vs, cs) ← parseFields item fuel cs
      .ok ((k, v) :: vs, cs)
    | '}' :: cs => .ok ([(k, v)], cs)
    | _ => .error .malformed

/-- An array or object after its opening bracket: empty, or what `items` reads. -/
def parseContainer {α : Type} (close : Char) (wrap : List α → Value)
    (items : List Char → Except ParseError (List α × List Char)) (cs : List Char) :
    Except ParseError (Value × List Char) :=
  match skipBlanks cs with
  | [] => .error .eof
  | c :: rest =>
    if c = close then .ok (wrap [], rest)
    else do
      let (vs, cs) ← items (c :: rest)
      .ok (wrap vs, cs)

/-- A value that may hold arrays and objects nested up to the given number. -/
def parseValue : Nat → List Char → Except ParseError (Value × List Char)
  | 0, cs =>
    match skipBlanks cs with
    | '[' :: _ => .error .recursionLimit
    | '{' :: _ => .error .recursionLimit
    | cs => parseScalar cs
  | n + 1, cs =>
    match skipBlanks cs with
    | '[' :: cs => parseContainer ']' .arr (parseItems (parseValue n) (cs.length + 1)) cs
    | '{' :: cs => parseContainer '}' .obj (parseFields (parseValue n) (cs.length + 1)) cs
    | cs => parseScalar cs

/-- Nesting the reader accepts: its budget of 128 is used up by the array or object that would be
the 128th on the way down. -/
def maxDepth : Nat := 127

/-- `serde_json::from_str`: one value and nothing but blanks after it. -/
def fromStr (cs : List Char) : Except ParseError Value := do
  let (v, cs) ← parseValue maxDepth cs
  if skipBlanks cs = [] then .ok v else .error .malformed

/-! ### UTF-8 -/

/-- The UTF-8 bytes of a text. -/
def utf8 (cs : List Char) : List UInt8 := cs.flatMap String.utf8EncodeChar

/-- How many bytes `utf8` gives. -/
def utf8Len (cs : List Char) : Nat := (cs.map Char.utf8Size).sum

/-- `serde_json::to_vec`. -/
def toVec (v : Value) : List UInt8 := utf8 (print v)

/-- The length of `toVec`. -/
def encodedLen (v : Value) : Nat := utf8Len (print v)

/-- `serde_json::from_slice`. -/
def fromSlice (bytes : List UInt8) : Except ParseError Value :=
  match bytes.toByteArray.utf8Decode? with
  | some cs => fromStr cs.toList
  | none => .error .malformed

end AgentHub.Json
