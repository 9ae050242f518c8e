import AgentHub.Json.Text

/-!
# Documents over several lines

`serde_json::to_string_pretty`: an item of an array and a field of an object have a line of their own,
two blanks deeper than what they are in.
-/

namespace AgentHub.Json

/-- The end of a line and the indentation of the next. -/
def newline (depth : Nat) : List Char := '\n' :: List.replicate (2 * depth) ' '

mutual

/-- `serde_json::to_string_pretty`, for a value at a depth of indentation. -/
def prettyAt (depth : Nat) : Value → List Char
  | .arr [] => ['[', ']']
  | .arr (v :: vs) => '[' :: (prettyItems (depth + 1) (v :: vs) ++ (newline depth ++ [']']))
  | .obj [] => ['{', '}']
  | .obj (kv :: kvs) => '{' :: (prettyFields (depth + 1) (kv :: kvs) ++ (newline depth ++ ['}']))
  | v => print v

def prettyItems (depth : Nat) : List Value → List Char
  | [] => []
  | [v] => newline depth ++ prettyAt depth v
  | v :: w :: vs => newline depth ++ (prettyAt depth v ++ ',' :: prettyItems depth (w :: vs))

def prettyFields (depth : Nat) : List (String × Value) → List Char
  | [] => []
  | [(k, v)] => newline depth ++ (printString k ++ ':' :: ' ' :: prettyAt depth v)
  | (k, v) :: w :: vs =>
    newline depth ++
      (printString k ++ ':' :: ' ' :: (prettyAt depth v ++ ',' :: prettyFields depth (w :: vs)))

end

def pretty (v : Value) : List Char := prettyAt 0 v

end AgentHub.Json
