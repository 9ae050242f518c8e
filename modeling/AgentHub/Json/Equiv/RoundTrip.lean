import AgentHub.Json.Text
import AgentHub.Text
import Mathlib.Tactic.IntervalCases

/-!
# The reader gives back what the writer wrote

`parseValue_print`: a printed value is read back, with the text behind it left over, when it is
nested no deeper than the reader allows.  `parseValue_print_of_lt`: a value that is nested deeper
is refused with `recursionLimit`, wherever in the document the nesting occurs.  `fromStr_print`
and `fromSlice_toVec` are the two facts for whole documents.

A number ends at the first character that cannot belong to one, so the text behind a value must
not start with such a character (`Delimited`).  Commas, closing brackets and the end of the
document qualify.
-/

namespace AgentHub.Json

open Value

/-! ### Strings -/

theorem hexValue_digitChar : ∀ d < 16, hexValue (Nat.digitChar d) = some d := by decide

theorem char_ofNat_toNat (c : Char) : Char.ofNat c.toNat = c := by simp

/-- The short escapes and the escape of the remaining control characters. -/
theorem escapeItem_of_control {c : Char} (h : c.toNat < 0x20) (rest : List Char) :
    escapeItem ('u' :: '0' :: '0' :: Nat.digitChar (c.toNat / 16) ::
      Nat.digitChar (c.toNat % 16) :: rest) = .ok (c, rest) := by
  have hhi := hexValue_digitChar (c.toNat / 16) (by omega)
  have hlo := hexValue_digitChar (c.toNat % 16) (by omega)
  have hzero : hexValue '0' = some 0 := by decide
  have hval : ((0 * 16 + 0) * 16 + c.toNat / 16) * 16 + c.toNat % 16 = c.toNat := by omega
  simp only [escapeItem, unicodeItem, hex4, hzero, hhi, hlo, hval, bind, Except.bind]
  rw [if_neg (by omega), if_neg (by omega), char_ofNat_toNat]

/-- The letters that follow a backslash, each with the character it stands for. -/
def shortEscapes : List (Char × Char) :=
  [('"', '"'), ('\\', '\\'), ('b', '\x08'), ('f', '\x0c'), ('n', '\n'), ('r', '\r'), ('t', '\t')]

/-- The three forms a character is written in. -/
inductive Escaped (c : Char) : List Char → Prop
  | short (letter : Char) : (letter, c) ∈ shortEscapes → Escaped c ['\\', letter]
  | code : c.toNat < 0x20 →
      Escaped c ['\\', 'u', '0', '0', Nat.digitChar (c.toNat / 16), Nat.digitChar (c.toNat % 16)]
  | plain : c ≠ '"' → c ≠ '\\' → 0x20 ≤ c.toNat → Escaped c [c]

theorem escaped_escapeChar (c : Char) : Escaped c (escapeChar c) := by
  by_cases hshort : ∃ letter, (letter, c) ∈ shortEscapes
  · obtain ⟨letter, hmem⟩ := hshort
    -- the seven letters are seven characters
    have hletters : ∀ p ∈ shortEscapes, escapeChar p.2 = ['\\', p.1] := by decide
    rw [hletters _ hmem]
    exact .short letter hmem
  · have hne : ∀ p ∈ shortEscapes, c ≠ p.2 := by
      rintro ⟨letter, d⟩ hmem rfl
      exact hshort ⟨letter, hmem⟩
    simp only [shortEscapes, List.forall_mem_cons, List.not_mem_nil, false_implies, implies_true,
      and_true] at hne
    obtain ⟨hquote, hslash, hb, hf, hn, hr, ht⟩ := hne
    rw [escapeChar, if_neg hquote, if_neg hslash, if_neg hb, if_neg hf, if_neg hn, if_neg hr,
      if_neg ht]
    by_cases hcontrol : c.toNat < 0x20
    · rw [if_pos hcontrol]
      exact .code hcontrol
    · rw [if_neg hcontrol]
      exact .plain hquote hslash (Nat.le_of_not_lt hcontrol)

theorem escapeItem_of_short {letter c : Char} (h : (letter, c) ∈ shortEscapes) (rest : List Char) :
    escapeItem (letter :: rest) = .ok (c, rest) := by
  simp only [shortEscapes, List.mem_cons, Prod.mk.injEq, List.not_mem_nil, or_false] at h
  rcases h with ⟨rfl, rfl⟩ | ⟨rfl, rfl⟩ | ⟨rfl, rfl⟩ | ⟨rfl, rfl⟩ | ⟨rfl, rfl⟩ | ⟨rfl, rfl⟩ | ⟨rfl, rfl⟩
  all_goals rfl

/-- What follows a backslash is read by `escapeItem`. -/
theorem parseString_slash {cs rest s tail : List Char} {c : Char} (fuel : Nat)
    (hitem : escapeItem cs = .ok (c, rest)) (h : parseString fuel rest = .ok (s, tail)) :
    parseString (fuel + 1) ('\\' :: cs) = .ok (c :: s, tail) := by
  rw [parseString, if_neg (by decide), if_pos rfl, hitem]
  show (parseString fuel rest >>= fun p => Except.ok (c :: p.1, p.2)) = _
  rw [h]
  rfl

/-- One escaped character is read back and the rest of the string follows. -/
theorem parseString_escapeChar (c : Char) (fuel : Nat) (rest s tail : List Char)
    (h : parseString fuel rest = .ok (s, tail)) :
    parseString (fuel + 1) (escapeChar c ++ rest) = .ok (c :: s, tail) := by
  have hform := escaped_escapeChar c
  generalize escapeChar c = text at hform ⊢
  cases hform with
  | short letter hmem => exact parseString_slash fuel (escapeItem_of_short hmem rest) h
  | code hcontrol => exact parseString_slash fuel (escapeItem_of_control hcontrol rest) h
  | plain hquote hslash hprintable =>
    rw [List.singleton_append, parseString, if_neg hquote, if_neg hslash,
      if_neg (Nat.not_lt.2 hprintable), h]
    rfl

theorem escapeChar_length_pos (c : Char) : 0 < (escapeChar c).length := by
  have h := escaped_escapeChar c
  generalize escapeChar c = text at h ⊢
  cases h <;> exact Nat.succ_pos _

theorem parseString_escape (cs rest : List Char) : ∀ fuel, cs.length < fuel →
    parseString fuel (escape cs ++ '"' :: rest) = .ok (cs, rest) := by
  induction cs with
  | nil =>
    intro fuel hf
    obtain ⟨fuel, rfl⟩ : ∃ k, fuel = k + 1 := ⟨fuel - 1, by simp at hf; omega⟩
    simp [escape, parseString]
  | cons c cs ih =>
    intro fuel hf
    obtain ⟨fuel, rfl⟩ : ∃ k, fuel = k + 1 := ⟨fuel - 1, by simp at hf; omega⟩
    have htail := ih fuel (by simp at hf; omega)
    have hcons : escape (c :: cs) ++ '"' :: rest = escapeChar c ++ (escape cs ++ '"' :: rest) := by
      simp [escape]
    rw [hcons]
    exact parseString_escapeChar c fuel _ cs rest htail

theorem length_le_escape (cs : List Char) : cs.length ≤ (escape cs).length := by
  induction cs with
  | nil => simp
  | cons c cs ih =>
    have hpos := escapeChar_length_pos c
    simp only [escape, List.flatMap_cons, List.length_append, List.length_cons] at ih ⊢
    omega

/-- A printed string is read back; the reader's own fuel suffices. -/
theorem parseString_print (s : String) (rest : List Char) :
    parseString ((escape s.toList ++ '"' :: rest).length + 1) (escape s.toList ++ '"' :: rest)
      = .ok (s.toList, rest) := by
  apply parseString_escape
  have hle := length_le_escape s.toList
  simp only [List.length_append, List.length_cons]
  omega

/-! ### Numbers -/

/-- The text behind a value does not continue a number. -/
def Delimited (rest : List Char) : Prop := ∀ c ∈ rest.head?, isNumberChar c = false

theorem delimited_nil : Delimited [] := by simp [Delimited]

theorem delimited_cons {c : Char} (h : isNumberChar c = false) (rest : List Char) :
    Delimited (c :: rest) := by simp [Delimited, h]

theorem takeWhile_number {token rest : List Char} (ht : ∀ c ∈ token, isNumberChar c = true)
    (hr : Delimited rest) : (token ++ rest).takeWhile isNumberChar = token := by
  rw [List.takeWhile_append_of_pos ht]
  cases rest with
  | nil => simp
  | cons c rest =>
    have hc : isNumberChar c = false := hr c (by simp)
    simp [hc]

theorem dropWhile_number {token rest : List Char} (ht : ∀ c ∈ token, isNumberChar c = true)
    (hr : Delimited rest) : (token ++ rest).dropWhile isNumberChar = rest := by
  rw [List.dropWhile_append_of_pos ht]
  cases rest with
  | nil => simp
  | cons c rest =>
    have hc : isNumberChar c = false := hr c (by simp)
    simp [hc]

theorem ne_of_isNumberChar {c d : Char} (hc : isNumberChar c = true)
    (hd : isNumberChar d = false) : c ≠ d := by
  rintro rfl
  rw [hc] at hd
  cases hd

theorem isBlank_of_isNumberChar {c : Char} (hc : isNumberChar c = true) : isBlank c = false := by
  simp [isBlank, ne_of_isNumberChar hc (d := ' ') (by decide),
    ne_of_isNumberChar hc (d := '\n') (by decide), ne_of_isNumberChar hc (d := '\t') (by decide),
    ne_of_isNumberChar hc (d := '\r') (by decide)]

theorem isNumberChar_of_isDigit {c : Char} (h : c.isDigit = true) : isNumberChar c = true := by
  simp [isNumberChar, h]

theorem isDigit_ne_frac {c : Char} (h : c.isDigit = true) :
    (c == '.' || c == 'e' || c == 'E') = false := by
  have hne : ∀ d : Char, d.isDigit = false → c ≠ d := by
    rintro d hd rfl
    rw [h] at hd
    cases hd
  simp [hne '.' (by decide), hne 'e' (by decide), hne 'E' (by decide)]

theorem isDigit_toDigits (n : Nat) : ∀ c ∈ Nat.toDigits 10 n, c.isDigit = true :=
  fun _ hc => Nat.isDigit_of_mem_toDigits (by omega) (by omega) hc

theorem isFloatToken_eq_false {token : List Char}
    (h : ∀ c ∈ token, (c == '.' || c == 'e' || c == 'E') = false) : isFloatToken token = false := by
  have hany : (token.any fun c => c == '.' || c == 'e' || c == 'E') = false := by
    rw [List.any_eq_false]
    intro c hc
    simp only [h c hc, Bool.false_eq_true, not_false_eq_true]
  rw [isFloatToken, hany, Bool.and_false]

/-- The decimal digits of a positive number do not start with a zero. -/
theorem head_toDigits_ne_zero (n : Nat) (hn : 0 < n) :
    ∃ d ds, Nat.toDigits 10 n = d :: ds ∧ d ≠ '0' := by
  induction n using Nat.strong_induction_on with
  | _ n ih =>
    by_cases hlt : n < 10
    · refine ⟨Nat.digitChar n, [], Nat.toDigits_of_lt_base hlt, ?_⟩
      interval_cases n <;> decide
    · obtain ⟨d, ds, hd, hne⟩ := ih (n / 10) (by omega) (by omega)
      refine ⟨d, ds ++ [Nat.digitChar (n % 10)], ?_, hne⟩
      rw [Nat.toDigits_of_base_le (by omega) (by omega), hd, List.cons_append]

theorem all_isDigit_toDigits (n : Nat) : (Nat.toDigits 10 n).all Char.isDigit = true := by
  rw [List.all_eq_true]
  exact isDigit_toDigits n

theorem isNatToken_toDigits (n : Nat) : isNatToken (Nat.toDigits 10 n) = true := by
  rw [isNatToken, all_isDigit_toDigits, Bool.true_and]
  rcases Nat.eq_zero_or_pos n with rfl | hpos
  · rw [Nat.toDigits_zero]
    decide
  · obtain ⟨d, ds, hd, hne⟩ := head_toDigits_ne_zero n hpos
    simp [hd, hne]

theorem parseInt_natDigits (n : Nat) : parseInt (Nat.toDigits 10 n) = some (n : Int) := by
  unfold parseInt
  split
  · rename_i ds heq
    -- a minus sign is no digit
    have hdigit := isDigit_toDigits n '-' (by rw [heq]; simp)
    simp [Char.isDigit] at hdigit
  · rw [if_pos (isNatToken_toDigits n), Nat.ofDigitChars_ten_toDigits]

theorem parseInt_negDigits (n : Nat) :
    parseInt ('-' :: Nat.toDigits 10 (n + 1)) = some (.negSucc n) := by
  have hne : Nat.toDigits 10 (n + 1) ≠ ['0'] := by
    obtain ⟨d, ds, hd, hne⟩ := head_toDigits_ne_zero (n + 1) (by omega)
    simp [hd, hne]
  simp only [parseInt, isNatToken_toDigits, Nat.ofDigitChars_ten_toDigits, bne_iff_ne.mpr hne,
    Bool.true_and, ↓reduceIte]
  rfl

theorem isNumberChar_printInt (n : Int) : ∀ c ∈ printInt n, isNumberChar c = true := by
  intro c hc
  cases n with
  | ofNat n => exact isNumberChar_of_isDigit (isDigit_toDigits n c hc)
  | negSucc n =>
    rcases List.mem_cons.mp hc with rfl | hc
    · decide
    · exact isNumberChar_of_isDigit (isDigit_toDigits (n + 1) c hc)

theorem parseNumber_printInt (n : Int) : parseNumber (printInt n) = .ok (.int n) := by
  have hint : parseInt (printInt n) = some n := by
    cases n with
    | ofNat n => exact parseInt_natDigits n
    | negSucc n => exact parseInt_negDigits n
  have hfloat : isFloatToken (printInt n) = false := by
    apply isFloatToken_eq_false
    intro c hc
    cases n with
    | ofNat n => exact isDigit_ne_frac (isDigit_toDigits n c hc)
    | negSucc n =>
      rcases List.mem_cons.mp hc with rfl | hc
      · decide
      · exact isDigit_ne_frac (isDigit_toDigits (n + 1) c hc)
  unfold parseNumber
  rw [dif_neg (by rw [hfloat]; decide), hint]

theorem isNumberChar_float (x : FloatText) : ∀ c ∈ x.text, isNumberChar c = true := by
  have h := x.isToken
  rw [isFloatToken, Bool.and_eq_true, List.all_eq_true] at h
  exact h.1

theorem parseNumber_float (x : FloatText) : parseNumber x.text = .ok (.float x) := by
  unfold parseNumber
  rw [dif_pos x.isToken]

/-! ### Scalars

A printed value starts with a character that tells what it is: no blank, no closing bracket. -/

theorem skipBlanks_cons {c : Char} (h : isBlank c = false) (cs : List Char) :
    skipBlanks (c :: cs) = c :: cs := by simp [skipBlanks, h]

theorem parseScalar_number {token rest : List Char} {v : Value} (hne : token ≠ [])
    (ht : ∀ c ∈ token, isNumberChar c = true) (hr : Delimited rest)
    (hv : parseNumber token = .ok v) : parseScalar (token ++ rest) = .ok (v, rest) := by
  obtain ⟨c, cs, rfl⟩ := List.exists_cons_of_ne_nil hne
  have hc : isNumberChar c = true := ht c (by simp)
  have h1 : c ≠ 'n' := ne_of_isNumberChar hc (by decide)
  have h2 : c ≠ 't' := ne_of_isNumberChar hc (by decide)
  have h3 : c ≠ 'f' := ne_of_isNumberChar hc (by decide)
  have h4 : c ≠ '"' := ne_of_isNumberChar hc (by decide)
  unfold parseScalar
  split
  · simp at *
  · simp_all
  · simp_all
  · simp_all
  · simp_all
  · rw [takeWhile_number ht hr, dropWhile_number ht hr, hv]
    rfl

theorem parseScalar_string (s : String) (rest : List Char) :
    parseScalar (printString s ++ rest) = .ok (.str s, rest) := by
  have hassoc : printString s ++ rest = '"' :: (escape s.toList ++ '"' :: rest) := by
    simp [printString]
  rw [hassoc]
  simp only [parseScalar, parseString_print, bind, Except.bind, String.ofList_toList]

/-- Outside arrays and objects the nesting budget does not matter. -/
theorem parseValue_eq_parseScalar (n : Nat) {c : Char} {cs : List Char} (hb : isBlank c = false)
    (harr : c ≠ '[') (hobj : c ≠ '{') : parseValue n (c :: cs) = parseScalar (c :: cs) := by
  cases n with
  | zero =>
    rw [parseValue, skipBlanks_cons hb]
    split <;> simp_all
  | succ n =>
    rw [parseValue, skipBlanks_cons hb]
    split <;> simp_all

theorem parseValue_number (n : Nat) {token rest : List Char} {v : Value} (hne : token ≠ [])
    (ht : ∀ c ∈ token, isNumberChar c = true) (hr : Delimited rest)
    (hv : parseNumber token = .ok v) : parseValue n (token ++ rest) = .ok (v, rest) := by
  have hscalar := parseScalar_number hne ht hr hv
  obtain ⟨c, cs, rfl⟩ := List.exists_cons_of_ne_nil hne
  have hc : isNumberChar c = true := ht c (by simp)
  rw [List.cons_append] at hscalar ⊢
  rw [parseValue_eq_parseScalar n (isBlank_of_isNumberChar hc)
    (ne_of_isNumberChar hc (by decide)) (ne_of_isNumberChar hc (by decide)), hscalar]

/-! ### The first character of a printed value -/

theorem printInt_ne_nil (n : Int) : printInt n ≠ [] := by
  cases n with
  | ofNat n => exact Nat.toDigits_ne_nil
  | negSucc n => simp [printInt]

theorem float_ne_nil (x : FloatText) : x.text ≠ [] := by
  intro h
  have htoken := x.isToken
  rw [h] at htoken
  simp [isFloatToken] at htoken

/-- A printed value starts with a character that is no blank and closes nothing. -/
theorem print_head (v : Value) :
    ∃ c cs, print v = c :: cs ∧ isBlank c = false ∧ c ≠ ']' ∧ c ≠ '}' := by
  have hnum : ∀ token : List Char, token ≠ [] → (∀ c ∈ token, isNumberChar c = true) →
      ∃ c cs, token = c :: cs ∧ isBlank c = false ∧ c ≠ ']' ∧ c ≠ '}' := by
    intro token hne hall
    obtain ⟨c, cs, rfl⟩ := List.exists_cons_of_ne_nil hne
    have hc : isNumberChar c = true := hall c (by simp)
    exact ⟨c, cs, rfl, isBlank_of_isNumberChar hc, ne_of_isNumberChar hc (by decide),
      ne_of_isNumberChar hc (by decide)⟩
  cases v with
  | null => exact ⟨'n', ['u', 'l', 'l'], rfl, by decide, by decide, by decide⟩
  | bool b =>
    cases b
    · exact ⟨'f', ['a', 'l', 's', 'e'], rfl, by decide, by decide, by decide⟩
    · exact ⟨'t', ['r', 'u', 'e'], rfl, by decide, by decide, by decide⟩
  | int n => exact hnum _ (printInt_ne_nil n) (isNumberChar_printInt n)
  | float x => exact hnum _ (float_ne_nil x) (isNumberChar_float x)
  | str s => exact ⟨'"', _, rfl, by decide, by decide, by decide⟩
  | arr items => exact ⟨'[', _, by rw [print], by decide, by decide, by decide⟩
  | obj fields => exact ⟨'{', _, by rw [print], by decide, by decide, by decide⟩

theorem print_length_pos (v : Value) : 0 < (print v).length := by
  obtain ⟨c, cs, h, -⟩ := print_head v
  simp [h]

theorem length_le_printItems (vs : List Value) : vs.length ≤ (printItems vs).length := by
  induction vs with
  | nil => simp
  | cons v vs ih =>
    have hpos := print_length_pos v
    cases vs with
    | nil =>
      rw [printItems]
      simp only [List.length_cons, List.length_nil]
      omega
    | cons w vs =>
      rw [printItems]
      simp only [List.length_append, List.length_cons] at ih ⊢
      omega

theorem length_le_printFields (vs : Fields) : vs.length ≤ (printFields vs).length := by
  induction vs with
  | nil => simp
  | cons kv vs ih =>
    obtain ⟨k, v⟩ := kv
    cases vs with
    | nil =>
      rw [printFields]
      simp only [List.length_append, List.length_cons, List.length_nil]
      omega
    | cons w vs =>
      rw [printFields]
      simp only [List.length_append, List.length_cons] at ih ⊢
      omega

theorem printFields_head (kv : String × Value) (vs : Fields) :
    ∃ cs, printFields (kv :: vs) = '"' :: cs := by
  obtain ⟨k, v⟩ := kv
  cases vs <;> exact ⟨_, by rw [printFields, printString, List.cons_append]⟩

/-- The key of a printed field is read back. -/
theorem parseKey_print (k : String) (rest : List Char) :
    parseKey (printString k ++ ':' :: rest) = .ok (k, rest) := by
  have hassoc : printString k ++ ':' :: rest = '"' :: (escape k.toList ++ '"' :: ':' :: rest) := by
    simp [printString]
  rw [hassoc, parseKey, skipBlanks_cons (by decide)]
  simp only [parseString_print, bind, Except.bind, skipBlanks_cons (c := ':') (by decide),
    String.ofList_toList]

/-! ### Arrays and objects

The loops over items and fields are proved correct for any reader of a single item, so that the
induction over the nesting budget below meets them once for each level. -/

theorem delimited_comma (cs : List Char) : Delimited (',' :: cs) := delimited_cons (by decide) cs

theorem delimited_bracket (cs : List Char) : Delimited (']' :: cs) := delimited_cons (by decide) cs

theorem delimited_brace (cs : List Char) : Delimited ('}' :: cs) := delimited_cons (by decide) cs

theorem depthItems_le_iff (vs : List Value) (n : Nat) :
    depthItems vs ≤ n ↔ ∀ v ∈ vs, v.depth ≤ n := by
  induction vs with
  | nil => simp [depthItems]
  | cons v vs ih => simp [depthItems, ih]

theorem depthFields_le_iff (vs : Fields) (n : Nat) :
    depthFields vs ≤ n ↔ ∀ kv ∈ vs, kv.2.depth ≤ n := by
  induction vs with
  | nil => simp [depthFields]
  | cons kv vs ih => simp [depthFields, ih]

section Loops

variable (item : List Char → Except ParseError (Value × List Char))

/-- `item` reads the printed value and stops behind it. -/
def Reads (v : Value) : Prop :=
  ∀ rest, Delimited rest → item (print v ++ rest) = .ok (v, rest)

/-- `item` gives up on the printed value because of its nesting. -/
def GivesUp (v : Value) : Prop := ∀ rest, item (print v ++ rest) = .error .recursionLimit

variable {item}

theorem parseItems_print (vs : List Value) (hne : vs ≠ []) (hvs : ∀ v ∈ vs, Reads item v)
    (fuel : Nat) (hf : vs.length ≤ fuel) (rest : List Char) :
    parseItems item fuel (printItems vs ++ ']' :: rest) = .ok (vs, rest) := by
  induction vs generalizing fuel with
  | nil => exact absurd rfl hne
  | cons v vs ih =>
    obtain ⟨fuel, rfl⟩ : ∃ k, fuel = k + 1 := ⟨fuel - 1, by simp at hf; omega⟩
    have hv := hvs v (by simp)
    cases vs with
    | nil =>
      simp [printItems, parseItems, hv _ (delimited_bracket rest),
        skipBlanks_cons (c := ']') (by decide), bind, Except.bind]
    | cons w ws =>
      have htail := ih (by simp) (fun u hu => hvs u (List.mem_cons_of_mem _ hu)) fuel
        (by simpa using hf)
      simp only [printItems, List.append_assoc, List.cons_append]
      simp [parseItems, hv _ (delimited_comma _), htail, skipBlanks_cons (c := ',') (by decide),
        bind, Except.bind]

theorem parseFields_print (vs : Fields) (hne : vs ≠ []) (hvs : ∀ kv ∈ vs, Reads item kv.2)
    (fuel : Nat) (hf : vs.length ≤ fuel) (rest : List Char) :
    parseFields item fuel (printFields vs ++ '}' :: rest) = .ok (vs, rest) := by
  induction vs generalizing fuel with
  | nil => exact absurd rfl hne
  | cons kv vs ih =>
    obtain ⟨k, v⟩ := kv
    obtain ⟨fuel, rfl⟩ : ∃ m, fuel = m + 1 := ⟨fuel - 1, by simp at hf; omega⟩
    have hv : Reads item v := hvs (k, v) (by simp)
    cases vs with
    | nil =>
      simp only [printFields, List.append_assoc, List.cons_append]
      simp [parseFields, parseKey_print, hv _ (delimited_brace rest),
        skipBlanks_cons (c := '}') (by decide), bind, Except.bind]
    | cons w ws =>
      have htail := ih (by simp) (fun u hu => hvs u (List.mem_cons_of_mem _ hu)) fuel
        (by simpa using hf)
      simp only [printFields, List.append_assoc, List.cons_append]
      simp [parseFields, parseKey_print, hv _ (delimited_comma _), htail,
        skipBlanks_cons (c := ',') (by decide), bind, Except.bind]

/-- The items before the first one that is nested too deep are read, then the loop gives up. -/
theorem parseItems_givesUp (vs : List Value) (hvs : ∀ v ∈ vs, Reads item v ∨ GivesUp item v)
    (hdeep : ∃ v ∈ vs, GivesUp item v) (fuel : Nat) (hf : vs.length ≤ fuel) (rest : List Char) :
    parseItems item fuel (printItems vs ++ rest) = .error .recursionLimit := by
  induction vs generalizing fuel with
  | nil => simp at hdeep
  | cons v vs ih =>
    obtain ⟨fuel, rfl⟩ : ∃ k, fuel = k + 1 := ⟨fuel - 1, by simp at hf; omega⟩
    rcases hvs v (by simp) with hv | hv
    · cases vs with
      | nil =>
        -- the only item is the deep one, so it cannot have been read
        simp only [List.mem_singleton, exists_eq_left] at hdeep
        have h1 := hv [] delimited_nil
        rw [hdeep []] at h1
        cases h1
      | cons w ws =>
        have hdeep' : ∃ u ∈ w :: ws, GivesUp item u := by
          obtain ⟨u, hu, hup⟩ := hdeep
          rcases List.mem_cons.mp hu with rfl | hu
          · have h1 := hv [] delimited_nil
            rw [hup []] at h1
            cases h1
          · exact ⟨u, hu, hup⟩
        have htail := ih (fun u hu => hvs u (List.mem_cons_of_mem _ hu)) hdeep' fuel
          (by simpa using hf)
        simp only [printItems, List.append_assoc, List.cons_append]
        simp [parseItems, hv _ (delimited_comma _), htail, skipBlanks_cons (c := ',') (by decide),
          bind, Except.bind]
    · cases vs <;> simp [printItems, parseItems, hv _, bind, Except.bind]

theorem parseFields_givesUp (vs : Fields) (hvs : ∀ kv ∈ vs, Reads item kv.2 ∨ GivesUp item kv.2)
    (hdeep : ∃ kv ∈ vs, GivesUp item kv.2) (fuel : Nat) (hf : vs.length ≤ fuel)
    (rest : List Char) :
    parseFields item fuel (printFields vs ++ rest) = .error .recursionLimit := by
  induction vs generalizing fuel with
  | nil => simp at hdeep
  | cons kv vs ih =>
    obtain ⟨k, v⟩ := kv
    obtain ⟨fuel, rfl⟩ : ∃ m, fuel = m + 1 := ⟨fuel - 1, by simp at hf; omega⟩
    rcases hvs (k, v) (by simp) with hv | hv
    · -- a value that is read gives no error
      have hnot : ¬GivesUp item v := by
        intro hup
        have h1 := hv [] delimited_nil
        rw [hup []] at h1
        cases h1
      obtain ⟨u, hu, hup⟩ := hdeep
      rcases List.mem_cons.mp hu with rfl | hu
      · exact absurd hup hnot
      · cases vs with
        | nil => simp at hu
        | cons w ws =>
          have htail := ih (fun u hu => hvs u (List.mem_cons_of_mem _ hu)) ⟨u, hu, hup⟩ fuel
            (by simpa using hf)
          simp only [printFields, List.append_assoc, List.cons_append]
          simp [parseFields, parseKey_print, hv _ (delimited_comma _), htail,
            skipBlanks_cons (c := ',') (by decide), bind, Except.bind]
    · -- the head is the deep one: reading stops there
      cases vs with
      | nil =>
        simp only [printFields, List.append_assoc, List.cons_append]
        simp [parseFields, parseKey_print, hv _, bind, Except.bind]
      | cons w ws =>
        simp only [printFields, List.append_assoc, List.cons_append]
        simp [parseFields, parseKey_print, hv _, bind, Except.bind]

end Loops

/-! ### Values -/

/-- A value that is no array and no object is read back under any budget. -/
theorem parseValue_print_scalar (n : Nat) {v : Value} (h : v.depth = 0) : Reads (parseValue n) v := by
  intro rest hr
  cases v with
  | null => simp [print, parseValue_eq_parseScalar, isBlank, parseScalar, parseIdent]
  | bool b =>
    cases b <;> simp [print, parseValue_eq_parseScalar, isBlank, parseScalar, parseIdent]
  | int k =>
    rw [print]
    exact parseValue_number n (printInt_ne_nil k) (isNumberChar_printInt k) hr
      (parseNumber_printInt k)
  | float x =>
    rw [print]
    exact parseValue_number n (float_ne_nil x) (isNumberChar_float x) hr (parseNumber_float x)
  | str s =>
    have hscalar := parseScalar_string s rest
    rw [print]
    rw [printString, List.cons_append] at hscalar ⊢
    rw [parseValue_eq_parseScalar n (by decide) (by decide) (by decide), hscalar]
  | arr items => simp [depth] at h
  | obj fields => simp [depth] at h

theorem printItems_head {vs : List Value} (hne : vs ≠ []) :
    ∃ c cs, printItems vs = c :: cs ∧ isBlank c = false ∧ c ≠ ']' := by
  match vs with
  | [] => exact absurd rfl hne
  | [v] =>
    obtain ⟨c, cs, hc, hb, hclose, -⟩ := print_head v
    exact ⟨c, cs, by rw [printItems, hc], hb, hclose⟩
  | v :: w :: ws =>
    obtain ⟨c, cs, hc, hb, hclose, -⟩ := print_head v
    exact ⟨c, _, by rw [printItems, hc, List.cons_append], hb, hclose⟩

/-- An opened array goes to its items unless it is empty. -/
theorem parseValue_arr (n : Nat) {items : List Value} (hne : items ≠ []) (rest : List Char) :
    parseValue (n + 1) (print (.arr items) ++ rest)
      = (parseItems (parseValue n) ((printItems items ++ ']' :: rest).length + 1)
          (printItems items ++ ']' :: rest)).map fun p => (.arr p.1, p.2) := by
  have hassoc : print (.arr items) ++ rest = '[' :: (printItems items ++ ']' :: rest) := by
    simp [print]
  obtain ⟨c, cs, hc, hb, hclose⟩ := printItems_head hne
  rw [hassoc, parseValue, skipBlanks_cons (by decide), hc, List.cons_append]
  simp only [parseContainer, skipBlanks_cons hb, hclose, ↓reduceIte]
  cases parseItems (parseValue n) ((c :: (cs ++ ']' :: rest)).length + 1)
    (c :: (cs ++ ']' :: rest)) <;> rfl

theorem parseValue_obj (n : Nat) {fields : Fields} (hne : fields ≠ []) (rest : List Char) :
    parseValue (n + 1) (print (.obj fields) ++ rest)
      = (parseFields (parseValue n) ((printFields fields ++ '}' :: rest).length + 1)
          (printFields fields ++ '}' :: rest)).map fun p => (.obj p.1, p.2) := by
  have hassoc : print (.obj fields) ++ rest = '{' :: (printFields fields ++ '}' :: rest) := by
    simp [print]
  obtain ⟨kv, vs, rfl⟩ := List.exists_cons_of_ne_nil hne
  obtain ⟨cs, hc⟩ := printFields_head kv vs
  rw [hassoc, parseValue, skipBlanks_cons (by decide), hc, List.cons_append]
  simp only [parseContainer, skipBlanks_cons (c := '"') (by decide), Char.reduceEq, ↓reduceIte]
  cases parseFields (parseValue n) (('"' :: (cs ++ '}' :: rest)).length + 1)
    ('"' :: (cs ++ '}' :: rest)) <;> rfl

/-- **Round trip.**  A value nested no deeper than the budget is read back, and the text behind
it is left over. -/
theorem parseValue_print (n : Nat) (v : Value) (h : v.depth ≤ n) : Reads (parseValue n) v := by
  induction n generalizing v with
  | zero =>
    intro rest hr
    cases v with
    | arr items => simp [depth] at h
    | obj fields => simp [depth] at h
    | _ => exact parseValue_print_scalar 0 rfl rest hr
  | succ n ih =>
    intro rest hr
    cases v with
    | arr items =>
      rw [depth, Nat.add_le_add_iff_right, depthItems_le_iff] at h
      rcases eq_or_ne items [] with rfl | hne
      · simp [print, printItems, parseValue, parseContainer, skipBlanks, isBlank]
      · -- the text is as long as the items are many
        have hlen := length_le_printItems items
        rw [parseValue_arr n hne, parseItems_print items hne (fun w hw => ih w (h w hw)) _
          (by simp only [List.length_append]; omega)]
        rfl
    | obj fields =>
      rw [depth, Nat.add_le_add_iff_right, depthFields_le_iff] at h
      rcases eq_or_ne fields [] with rfl | hne
      · simp [print, printFields, parseValue, parseContainer, skipBlanks, isBlank]
      · have hlen := length_le_printFields fields
        rw [parseValue_obj n hne, parseFields_print fields hne (fun w hw => ih w.2 (h w hw)) _
          (by simp only [List.length_append]; omega)]
        rfl
    | _ => exact parseValue_print_scalar (n + 1) rfl rest hr

/-- **Recursion limit.**  A value nested deeper than the budget is refused, wherever the nesting
is. -/
theorem parseValue_print_of_lt (n : Nat) (v : Value) (h : n < v.depth) :
    GivesUp (parseValue n) v := by
  induction n generalizing v with
  | zero =>
    intro rest
    cases v with
    | arr items => simp [print, parseValue, skipBlanks, isBlank]
    | obj fields => simp [print, parseValue, skipBlanks, isBlank]
    | _ => simp [depth] at h
  | succ n ih =>
    -- each item is read, or the reader gives up on it
    have hsplit : ∀ w : Value, Reads (parseValue n) w ∨ GivesUp (parseValue n) w := by
      intro w
      rcases Nat.lt_or_ge n w.depth with hw | hw
      · exact Or.inr (ih w hw)
      · exact Or.inl (parseValue_print n w hw)
    intro rest
    cases v with
    | arr items =>
      rw [depth, Nat.add_lt_add_iff_right] at h
      -- the depth is that of one of the items
      have hdeep : ∃ w ∈ items, GivesUp (parseValue n) w := by
        by_contra hall
        have hle : depthItems items ≤ n := by
          rw [depthItems_le_iff]
          intro w hw
          by_contra hlt
          exact hall ⟨w, hw, ih w (by omega)⟩
        omega
      have hne : items ≠ [] := by rintro rfl; simp at hdeep
      have hlen := length_le_printItems items
      rw [parseValue_arr n hne, parseItems_givesUp items (fun w _ => hsplit w) hdeep _
        (by simp only [List.length_append]; omega)]
      rfl
    | obj fields =>
      rw [depth, Nat.add_lt_add_iff_right] at h
      have hdeep : ∃ kv ∈ fields, GivesUp (parseValue n) kv.2 := by
        by_contra hall
        have hle : depthFields fields ≤ n := by
          rw [depthFields_le_iff]
          intro w hw
          by_contra hlt
          exact hall ⟨w, hw, ih w.2 (by omega)⟩
        omega
      have hne : fields ≠ [] := by rintro rfl; simp at hdeep
      have hlen := length_le_printFields fields
      rw [parseValue_obj n hne, parseFields_givesUp fields (fun w _ => hsplit w.2) hdeep _
        (by simp only [List.length_append]; omega)]
      rfl
    | _ => simp [depth] at h

/-! ### What is read is nested no deeper than the budget -/

section Depth

variable {item : List Char → Except ParseError (Value × List Char)} {n : Nat}

theorem parseItems_depth (hitem : ∀ cs v rest, item cs = .ok (v, rest) → v.depth ≤ n) {fuel : Nat}
    {cs rest : List Char} {vs : List Value} (h : parseItems item fuel cs = .ok (vs, rest)) :
    depthItems vs ≤ n := by
  induction fuel generalizing cs vs with
  | zero => cases h
  | succ fuel ih =>
    rw [parseItems] at h
    rcases hv : item cs with _ | ⟨v, cs'⟩
    · rw [hv] at h
      cases h
    · rw [hv] at h
      have hdepth := hitem cs v cs' hv
      simp only [bind, Except.bind] at h
      split at h
      · cases h
      · rcases hvs : parseItems item fuel _ with _ | ⟨ws, cs''⟩
        · rw [hvs] at h
          cases h
        · rw [hvs] at h
          cases h
          exact Nat.max_le.2 ⟨hdepth, ih hvs⟩
      · cases h
        exact Nat.max_le.2 ⟨hdepth, Nat.zero_le _⟩
      · cases h

theorem parseFields_depth (hitem : ∀ cs v rest, item cs = .ok (v, rest) → v.depth ≤ n) {fuel : Nat}
    {cs rest : List Char} {vs : Fields} (h : parseFields item fuel cs = .ok (vs, rest)) :
    depthFields vs ≤ n := by
  induction fuel generalizing cs vs with
  | zero => cases h
  | succ fuel ih =>
    rw [parseFields] at h
    rcases hk : parseKey cs with _ | ⟨k, cs'⟩
    · rw [hk] at h
      cases h
    rw [hk] at h
    simp only [bind, Except.bind] at h
    rcases hv : item cs' with _ | ⟨v, cs''⟩
    · rw [hv] at h
      cases h
    · rw [hv] at h
      have hdepth := hitem cs' v cs'' hv
      -- behind the value stands a comma or the closing brace
      simp only at h
      split at h
      · cases h
      · rcases hvs : parseFields item fuel _ with _ | ⟨ws, rest'⟩
        · rw [hvs] at h
          cases h
        · rw [hvs] at h
          cases h
          exact Nat.max_le.2 ⟨hdepth, ih hvs⟩
      · cases h
        exact Nat.max_le.2 ⟨hdepth, Nat.zero_le _⟩
      · cases h

end Depth

theorem parseScalar_depth {cs rest : List Char} {v : Value} (h : parseScalar cs = .ok (v, rest)) :
    v.depth = 0 := by
  -- a literal has no depth
  have hident : ∀ {name : List Char} {w : Value} {cs : List Char}, w.depth = 0 →
      parseIdent name w cs = .ok (v, rest) → v.depth = 0 := by
    intro name w cs hw h
    rw [parseIdent] at h
    split at h
    · cases h
      exact hw
    · split at h <;> cases h
  unfold parseScalar at h
  split at h
  · cases h
  · exact hident rfl h
  · exact hident rfl h
  · exact hident rfl h
  · rename_i cs
    rcases hs : parseString (cs.length + 1) cs with _ | x
    · rw [hs] at h
      cases h
    · rw [hs] at h
      cases h
      rfl
  · rename_i cs _ _ _ _ _
    unfold parseNumber at h
    split at h
    · cases h
      rfl
    · split at h
      · cases h
        rfl
      · cases h

theorem parseContainer_depth {α : Type} {close : Char} {wrap : List α → Value}
    {items : List Char → Except ParseError (List α × List Char)} {n : Nat} {cs rest : List Char}
    {v : Value} (hempty : (wrap []).depth ≤ n)
    (hitems : ∀ cs vs rest, items cs = .ok (vs, rest) → (wrap vs).depth ≤ n)
    (h : parseContainer close wrap items cs = .ok (v, rest)) : v.depth ≤ n := by
  unfold parseContainer at h
  split at h
  · cases h
  · split at h
    · cases h
      exact hempty
    · rename_i c cs' _ _
      rcases hvs : items (c :: cs') with _ | ⟨vs, rest'⟩
      · rw [hvs] at h
        cases h
      · rw [hvs] at h
        cases h
        exact hitems _ vs _ hvs

/-- **A value that was read is nested no deeper than the budget.** -/
theorem parseValue_depth {n : Nat} {cs rest : List Char} {v : Value}
    (h : parseValue n cs = .ok (v, rest)) : v.depth ≤ n := by
  induction n generalizing cs rest v with
  | zero =>
    rw [parseValue] at h
    split at h
    · cases h
    · cases h
    · exact (parseScalar_depth h).le
  | succ n ih =>
    have hread : ∀ cs w rest, parseValue n cs = .ok (w, rest) → w.depth ≤ n := fun _ _ _ => ih
    rw [parseValue] at h
    split at h
    · refine @parseContainer_depth _ _ Value.arr _ _ _ _ _ (Nat.succ_le_succ (Nat.zero_le n)) ?_ h
      intro _ vs _ hvs
      exact Nat.succ_le_succ (parseItems_depth hread hvs)
    · refine @parseContainer_depth _ _ Value.obj _ _ _ _ _ (Nat.succ_le_succ (Nat.zero_le n)) ?_ h
      intro _ vs _ hvs
      exact Nat.succ_le_succ (parseFields_depth hread hvs)
    · rw [parseScalar_depth h]
      exact Nat.zero_le _

/-! ### Documents -/

theorem fromStr_depth {cs : List Char} {v : Value} (h : fromStr cs = .ok v) :
    v.depth ≤ maxDepth := by
  unfold fromStr at h
  rcases hv : parseValue maxDepth cs with _ | ⟨w, rest⟩
  · rw [hv] at h
    cases h
  · rw [hv] at h
    simp only [bind, Except.bind] at h
    split at h
    · cases h
      exact parseValue_depth hv
    · cases h

theorem fromStr_print (v : Value) (h : v.depth ≤ maxDepth) : fromStr (print v) = .ok v := by
  have hread := parseValue_print maxDepth v h [] delimited_nil
  rw [List.append_nil] at hread
  simp [fromStr, hread, skipBlanks, bind, Except.bind]

theorem fromStr_print_of_lt (v : Value) (h : maxDepth < v.depth) :
    fromStr (print v) = .error .recursionLimit := by
  have hdeep := parseValue_print_of_lt maxDepth v h []
  rw [List.append_nil] at hdeep
  simp [fromStr, hdeep, bind, Except.bind]

theorem utf8Decode_utf8 (cs : List Char) :
    (utf8 cs).toByteArray.utf8Decode? = some cs.toArray := by
  have h := List.utf8Decode?_utf8Encode (l := cs)
  rwa [List.utf8Encode] at h

theorem fromSlice_toVec (v : Value) (h : v.depth ≤ maxDepth) : fromSlice (toVec v) = .ok v := by
  rw [fromSlice, toVec, utf8Decode_utf8]
  exact fromStr_print v h

theorem fromSlice_toVec_of_lt (v : Value) (h : maxDepth < v.depth) :
    fromSlice (toVec v) = .error .recursionLimit := by
  rw [fromSlice, toVec, utf8Decode_utf8]
  exact fromStr_print_of_lt v h

theorem length_utf8 (cs : List Char) : (utf8 cs).length = utf8Len cs := by
  induction cs with
  | nil => rfl
  | cons c cs ih =>
    have hcons : utf8 (c :: cs) = String.utf8EncodeChar c ++ utf8 cs := List.flatMap_cons
    rw [hcons, List.length_append, ih, String.length_utf8EncodeChar]
    simp [utf8Len]

theorem utf8Len_toList (s : String) : utf8Len s.toList = Text.len s := by
  have hbytes : (utf8 s.toList).toByteArray = s.toByteArray := String.utf8Encode_toList
  show _ = s.toByteArray.size
  rw [← length_utf8, ← hbytes, List.size_toByteArray]

theorem length_toVec (v : Value) : (toVec v).length = encodedLen v := length_utf8 (print v)

/-! ### One line

Nothing a writer prints is a control character, so a document never spans lines. -/

theorem printable_of_isNumberChar {c : Char} (h : isNumberChar c = true) : 0x20 ≤ c.toNat := by
  have hbig : ∀ c : Char, c.isDigit = true → 0x20 ≤ c.toNat := by
    intro c hc
    simp only [Char.isDigit, Bool.and_eq_true, decide_eq_true_eq, UInt32.le_iff_toNat_le] at hc
    have hzero : 48 ≤ c.toNat := hc.1
    omega
  simp only [isNumberChar, Bool.or_eq_true, beq_iff_eq] at h
  rcases h with ((((h | rfl) | rfl) | rfl) | rfl) | rfl
  · exact hbig c h
  all_goals decide

theorem printable_digitChar : ∀ d < 16, 0x20 ≤ (Nat.digitChar d).toNat := by decide

theorem printable_escapeChar (c : Char) : ∀ e ∈ escapeChar c, 0x20 ≤ e.toNat := by
  have hslash : 0x20 ≤ '\\'.toNat := by decide
  have hform := escaped_escapeChar c
  generalize escapeChar c = text at hform ⊢
  cases hform with
  | short letter hmem =>
    have hletters : shortEscapes.all (fun p => decide (0x20 ≤ p.1.toNat)) = true := by decide
    have hletter : 0x20 ≤ letter.toNat :=
      of_decide_eq_true (List.all_eq_true.1 hletters _ hmem)
    exact List.forall_mem_cons.2 ⟨hslash, List.forall_mem_singleton.2 hletter⟩
  | code hcontrol =>
    have hhi := printable_digitChar (c.toNat / 16) (by omega)
    have hlo := printable_digitChar (c.toNat % 16) (by omega)
    have hprefix : (['\\', 'u', '0', '0'].all fun e => decide (0x20 ≤ e.toNat)) = true := by decide
    intro e he
    rcases List.mem_append.1 (show e ∈ ['\\', 'u', '0', '0'] ++ _ from he) with he | he
    · exact of_decide_eq_true (List.all_eq_true.1 hprefix e he)
    · rcases List.mem_pair.1 he with rfl | rfl
      · exact hhi
      · exact hlo
  | plain hquote hslash hprintable => exact List.forall_mem_singleton.2 hprintable

theorem printable_printString (s : String) : ∀ c ∈ printString s, 0x20 ≤ c.toNat := by
  intro c hc
  simp only [printString, escape, List.mem_cons, List.mem_append, List.mem_flatMap,
    List.not_mem_nil, or_false] at hc
  rcases hc with rfl | ⟨e, -, he⟩ | rfl
  · decide
  · exact printable_escapeChar e c he
  · decide

mutual

theorem printable_print (v : Value) : ∀ c ∈ print v, 0x20 ≤ c.toNat := by
  intro c hc
  match v with
  | .null | .bool true | .bool false =>
    have hall : (print .null ++ print (.bool true) ++ print (.bool false)).all
        (fun c => decide (0x20 ≤ c.toNat)) = true := by decide
    simp only [List.all_append, Bool.and_eq_true, List.all_eq_true, decide_eq_true_eq] at hall
    first
      | exact hall.1.1 c hc
      | exact hall.1.2 c hc
      | exact hall.2 c hc
  | .int n => exact printable_of_isNumberChar (isNumberChar_printInt n c hc)
  | .float x => exact printable_of_isNumberChar (isNumberChar_float x c hc)
  | .str s => exact printable_printString s c hc
  | .arr items =>
    simp only [print, List.mem_cons, List.mem_append, List.not_mem_nil, or_false] at hc
    rcases hc with rfl | hc | rfl
    · decide
    · exact printable_printItems items c hc
    · decide
  | .obj fields =>
    simp only [print, List.mem_cons, List.mem_append, List.not_mem_nil, or_false] at hc
    rcases hc with rfl | hc | rfl
    · decide
    · exact printable_printFields fields c hc
    · decide

theorem printable_printItems (vs : List Value) : ∀ c ∈ printItems vs, 0x20 ≤ c.toNat := by
  intro c hc
  match vs with
  | [] => simp [printItems] at hc
  | [v] => exact printable_print v c hc
  | v :: w :: vs =>
    simp only [printItems, List.mem_append, List.mem_cons] at hc
    rcases hc with hc | rfl | hc
    · exact printable_print v c hc
    · decide
    · exact printable_printItems (w :: vs) c hc

theorem printable_printFields (vs : Fields) : ∀ c ∈ printFields vs, 0x20 ≤ c.toNat := by
  intro c hc
  match vs with
  | [] => simp [printFields] at hc
  | [(k, v)] =>
    simp only [printFields, List.mem_append, List.mem_cons] at hc
    rcases hc with hc | rfl | hc
    · exact printable_printString k c hc
    · decide
    · exact printable_print v c hc
  | (k, v) :: w :: vs =>
    simp only [printFields, List.mem_append, List.mem_cons] at hc
    rcases hc with hc | rfl | hc | rfl | hc
    · exact printable_printString k c hc
    · decide
    · exact printable_print v c hc
    · decide
    · exact printable_printFields (w :: vs) c hc

end

/-- The bytes of a printable character are no newline. -/
theorem newline_notMem_utf8EncodeChar {c : Char} (h : 0x20 ≤ c.toNat) :
    (10 : UInt8) ∉ String.utf8EncodeChar c := by
  have hten : (10 : UInt8).toNat = 10 := rfl
  replace h : 0x20 ≤ c.val.toNat := h
  unfold String.utf8EncodeChar
  generalize c.val.toNat = n at h
  simp only
  split_ifs with h1 h2 h3
  all_goals
    simp only [List.mem_cons, List.not_mem_nil, or_false, ← UInt8.toNat_inj, UInt8.toNat_ofNat',
      hten]
    omega

/-- **A document is one line.** -/
theorem newline_notMem_toVec (v : Value) : (10 : UInt8) ∉ toVec v := by
  intro hmem
  obtain ⟨c, hc, hbyte⟩ := List.mem_flatMap.mp hmem
  exact newline_notMem_utf8EncodeChar (printable_print v c hc) hbyte

/-! ### Arrays of texts -/

theorem mapM_asStr (texts : List String) : (texts.map Value.str).mapM Value.asStr = some texts := by
  rw [List.mapM_map]
  induction texts with
  | nil => rfl
  | cons s texts ih =>
    rw [List.mapM_cons, ih]
    rfl

theorem depth_texts (texts : List String) : (Value.arr (texts.map .str)).depth ≤ 1 := by
  show Value.depthItems _ + 1 ≤ 1
  refine Nat.succ_le_succ ((depthItems_le_iff _ _).2 ?_)
  intro v hv
  obtain ⟨s, -, rfl⟩ := List.mem_map.1 hv
  exact Nat.le_refl _

end AgentHub.Json
