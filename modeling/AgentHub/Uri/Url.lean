import AgentHub.Json.Text

/-!
# Texts in URLs

Percent encoding, the URL a reference to a path resolves to, and the parameters of a query, as
ECMAScript and the URL standard have them.  A text is a list of Unicode scalar values.
-/

namespace AgentHub.Uri

open AgentHub.Json

/-! ### Percent encoding -/

def hexDigit (n : Nat) : Char := Char.ofNat (if n < 10 then 48 + n else 55 + n)

def hexValue (c : Char) : Option Nat :=
  if '0' ≤ c ∧ c ≤ '9' then some (c.toNat - 48)
  else if 'A' ≤ c ∧ c ≤ 'F' then some (c.toNat - 55)
  else if 'a' ≤ c ∧ c ≤ 'f' then some (c.toNat - 87)
  else none

/-- The escape of a byte. -/
def percentByte (b : UInt8) : List Char := ['%', hexDigit (b.toNat / 16), hexDigit (b.toNat % 16)]

/-- The characters to keep stay, and the others become the escapes of their bytes. -/
def percentEncode (keep : Char → Bool) (text : List Char) : List Char :=
  text.flatMap fun c => if keep c then [c] else (String.utf8EncodeChar c).flatMap percentByte

/-- The bytes of a text with escapes; a percent sign that begins none is refused. -/
def percentDecode : List Char → Option (List UInt8)
  | [] => some []
  | '%' :: hi :: lo :: text => do
    let hi ← hexValue hi
    let lo ← hexValue lo
    let bytes ← percentDecode text
    return UInt8.ofNat (16 * hi + lo) :: bytes
  | c :: text => if c = '%' then none else (percentDecode text).map (String.utf8EncodeChar c ++ ·)

/-- The characters `encodeURIComponent` keeps. -/
def isUnreserved (c : Char) : Bool := c.isAlphanum || "-_.!~*'()".toList.contains c

def encodeURIComponent (text : List Char) : List Char := percentEncode isUnreserved text

def decodeURIComponent (text : List Char) : Option (List Char) :=
  (percentDecode text).bind fun bytes => (bytes.toByteArray.utf8Decode?).map Array.toList

/-- The characters whose escapes `decodeURI` keeps. -/
def isReserved (c : Char) : Bool := ";/?:@&=+$,#".toList.contains c

/-- The percent signs of such escapes are escaped themselves. -/
def protect : List Char → List Char
  | [] => []
  | '%' :: hi :: lo :: text =>
    match hexValue hi, hexValue lo with
    | some h, some l =>
      if isReserved (Char.ofNat (16 * h + l)) then '%' :: '2' :: '5' :: hi :: lo :: protect text
      else '%' :: hi :: lo :: protect text
    | _, _ => '%' :: protect (hi :: lo :: text)
  | c :: text => c :: protect text

def decodeURI (text : List Char) : Option (List Char) := decodeURIComponent (protect text)

/-! ### References -/

/-- The text before the first such character, and the text after it if there is one. -/
def cut (sep : Char) (text : List Char) : List Char × Option (List Char) :=
  (text.takeWhile (· ≠ sep), if sep ∈ text then some (text.dropWhile (· ≠ sep)).tail else none)

def isControl (c : Char) : Bool := c.toNat ≤ 0x1F || 0x7E < c.toNat

/-- The characters a path keeps. -/
def keptInPath (c : Char) : Bool := !isControl c && !(" \"#<>?^`\x7b\x7d".toList.contains c)

/-- The characters a query keeps. -/
def keptInQuery (c : Char) : Bool := !isControl c && !(" \"#<>'".toList.contains c)

/-- A dot as it may be written in a segment. -/
def dotForms : List (List Char) := [".".toList, "%2e".toList, "%2E".toList]

def isSingleDot (segment : List Char) : Bool := dotForms.contains segment

def isDoubleDot (segment : List Char) : Bool :=
  dotForms.any fun first => dotForms.any fun second => first ++ second == segment

/-- The segments of a path, one after the other: dots are taken out. -/
def addSegments : List (List Char) → List (List Char) → List (List Char)
  | path, [] => path
  | path, [last] =>
    if isDoubleDot last then path.dropLast ++ [[]]
    else if isSingleDot last then path ++ [[]]
    else path ++ [percentEncode keptInPath last]
  | path, segment :: rest =>
    if isDoubleDot segment then addSegments path.dropLast rest
    else if isSingleDot segment then addSegments path rest
    else addSegments (path ++ [percentEncode keptInPath segment]) rest

/-- A URL, without its origin and its fragment. -/
structure Url where
  pathname : List Char
  query : Option (List Char)
  deriving DecidableEq

def isSlash (c : Char) : Bool := c == '/' || c == '\\'

/-- Tabs and newlines are taken out, and blanks and controls at the ends. -/
def cleaned (reference : List Char) : List Char :=
  let isBlank (c : Char) : Bool := c.toNat ≤ 0x20
  (((reference.dropWhile isBlank).reverse.dropWhile isBlank).reverse).filter fun c =>
    !(['\t', '\n', '\r'].contains c)

/-- `new URL` of a reference to a path, with a base of a scheme such as `https`; none for the others. -/
def resolve (reference : List Char) : Option Url :=
  match cleaned reference with
  | first :: rest =>
    if isSlash first ∧ ¬ rest.head?.any isSlash then
      let (path, query) := cut '?' (cut '#' rest).1
      some
        { pathname := (addSegments [] (path.splitOnP isSlash)).flatMap ('/' :: ·)
          query := query.map (percentEncode keptInQuery) }
    else none
  | [] => none

/-! ### Queries -/

/-- The parameters of a query. -/
abbrev Params := List (String × String)

/-- `URLSearchParams.set`. -/
def Params.set : Params → String → String → Params
  | [], name, value => [(name, value)]
  | (k, v) :: params, name, value =>
    if k = name then (name, value) :: params.filter fun kv => kv.1 ≠ name
    else (k, v) :: Params.set params name value

/-- `URLSearchParams.append`. -/
def Params.append (params : Params) (name value : String) : Params := params ++ [(name, value)]

/-- `URLSearchParams.getAll`. -/
def Params.getAll (params : Params) (name : String) : List String :=
  (params.filter fun kv => kv.1 = name).map Prod.snd

def isFormUnreserved (c : Char) : Bool := c.isAlphanum || "*-._".toList.contains c

/-- A name or a value as it is written: blanks become plus signs. -/
def formEncode (text : List Char) : List Char :=
  (percentEncode (fun c => isFormUnreserved c || c == ' ') text).map fun c => if c = ' ' then '+' else c

/-- `URLSearchParams` as a text. -/
def serialize (params : Params) : List Char :=
  List.intercalate ['&'] (params.map fun kv => formEncode kv.1.toList ++ '=' :: formEncode kv.2.toList)

/-- A decoder that decodes what `decodeURIComponent` does, and makes something of the rest. -/
structure Decoder where
  decode : List Char → List Char
  decodes : ∀ text decoded, decodeURIComponent text = some decoded → decode text = decoded

/-- A name or a value as it is read. -/
def Decoder.read (decoder : Decoder) (text : List Char) : String :=
  String.ofList (decoder.decode (text.map fun c => if c = '+' then ' ' else c))

/-- The parameters in a query. -/
def Decoder.params (decoder : Decoder) (query : List Char) : Params :=
  ((query.splitOn '&').filter (· ≠ [])).map fun piece =>
    (decoder.read (cut '=' piece).1, decoder.read ((cut '=' piece).2.getD []))

end AgentHub.Uri
