import Mathlib.Algebra.Order.Ring.Int
import Mathlib.Data.List.Basic
import Mathlib.Data.List.Infix

/-!
# Rust string operations

The `str` methods the hub calls, on Lean strings.  A pattern search and a trim work on the
characters; `len` counts the bytes of the UTF-8 encoding.
-/

namespace AgentHub.Text

/-- `char::is_whitespace`: the code points with the Unicode `White_Space` property. -/
def isWhitespace (c : Char) : Bool :=
  let n := c.toNat
  (9 ≤ n && n ≤ 13) || n == 32 || n == 0x85 || n == 0xA0 || n == 0x1680 ||
    (0x2000 ≤ n && n ≤ 0x200A) || n == 0x2028 || n == 0x2029 || n == 0x202F || n == 0x205F ||
    n == 0x3000

/-- `char::is_control`: general category `Cc`. -/
def isControl (c : Char) : Bool :=
  c.toNat < 32 || (127 ≤ c.toNat && c.toNat < 160)

/-- The characters left when leading and trailing whitespace is dropped. -/
def trimChars (cs : List Char) : List Char :=
  ((cs.dropWhile isWhitespace).reverse.dropWhile isWhitespace).reverse

/-- `str::trim`. -/
def trim (s : String) : String := String.ofList (trimChars s.toList)

/-- `str::len`, the bytes of the text. -/
def len (s : String) : Nat := s.utf8ByteSize

def containsChars (pat : List Char) : List Char → Bool
  | [] => pat.isEmpty
  | c :: cs => pat.isPrefixOf (c :: cs) || containsChars pat cs

/-- `str::contains` with a text pattern. -/
def contains (s pat : String) : Bool := containsChars pat.toList s.toList

/-- `str::contains` with a character pattern. -/
def containsChar (s : String) (c : Char) : Bool := s.toList.contains c

/-- `str::starts_with`. -/
def startsWith (s pat : String) : Bool := pat.toList.isPrefixOf s.toList

/-- The upper case of a character, as far as a search for an ASCII word can tell: besides the
ASCII letters, the characters whose full upper-case mapping has an ASCII letter in it.  Every
other mapping is between characters outside ASCII. -/
def upperChar (c : Char) : List Char :=
  match c.toNat with
  | 0xDF => ['S', 'S']
  | 0x131 => ['I']
  | 0x149 => [Char.ofNat 0x2BC, 'N']
  | 0x17F => ['S']
  | 0x1F0 => ['J', Char.ofNat 0x30C]
  | 0x1E96 => ['H', Char.ofNat 0x331]
  | 0x1E97 => ['T', Char.ofNat 0x308]
  | 0x1E98 => ['W', Char.ofNat 0x30A]
  | 0x1E99 => ['Y', Char.ofNat 0x30A]
  | 0x1E9A => ['A', Char.ofNat 0x2BE]
  | 0xFB00 => ['F', 'F']
  | 0xFB01 => ['F', 'I']
  | 0xFB02 => ['F', 'L']
  | 0xFB03 => ['F', 'F', 'I']
  | 0xFB04 => ['F', 'F', 'L']
  | 0xFB05 => ['S', 'T']
  | 0xFB06 => ['S', 'T']
  | _ => [c.toUpper]

/-- `str::to_uppercase`, read by searches for ASCII words only. -/
def toUppercase (s : String) : String := String.ofList (s.toList.flatMap upperChar)

/-- `[&str]::join`. -/
def join (sep : String) : List String → String
  | [] => ""
  | [s] => s
  | s :: t :: rest => s ++ sep ++ join sep (t :: rest)

/-- `sort_unstable` on texts. -/
def sorted (texts : List String) : List String := texts.mergeSort fun a b => decide (a ≤ b)

end AgentHub.Text
