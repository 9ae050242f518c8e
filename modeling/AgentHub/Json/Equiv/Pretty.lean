import AgentHub.Json.Equiv.RoundTrip
import AgentHub.Json.Pretty
import Mathlib.Data.List.TakeWhile

/-!
# Correctness of the reader on documents over several lines

A document that `pretty` writes is read back, also with blanks behind it (`fromStr_pretty`).  Blanks
before a value are skipped (`parseValue_blanks`), so the proof is that of `print` with the lines in
between.
-/

namespace AgentHub.Json

/-! ### Blanks -/

theorem skipBlanks_append {blanks : List Char} (h : ∀ c ∈ blanks, isBlank c = true)
    (cs : List Char) : skipBlanks (blanks ++ cs) = skipBlanks cs := by
  unfold skipBlanks
  exact List.dropWhile_append_of_pos h

theorem isBlank_newline {depth : Nat} {c : Char} (h : c ∈ newline depth) : isBlank c = true := by
  rcases List.mem_cons.1 h with rfl | h
  · rfl
  · rw [List.eq_of_mem_replicate h]
    rfl

theorem skipBlanks_newline (depth : Nat) (cs : List Char) :
    skipBlanks (newline depth ++ cs) = skipBlanks cs :=
  skipBlanks_append (fun _ => isBlank_newline) cs

/-- Blanks before a value. -/
theorem parseValue_blanks (n : Nat) {blanks : List Char} (h : ∀ c ∈ blanks, isBlank c = true)
    (cs : List Char) : parseValue n (blanks ++ cs) = parseValue n cs := by
  cases n with
  | zero => rw [parseValue, parseValue, skipBlanks_append h]
  | succ n => rw [parseValue, parseValue, skipBlanks_append h]

theorem parseKey_blanks {blanks : List Char} (h : ∀ c ∈ blanks, isBlank c = true)
    (cs : List Char) : parseKey (blanks ++ cs) = parseKey cs := by
  rw [parseKey, parseKey, skipBlanks_append h]

theorem delimited_newline (depth : Nat) (cs : List Char) : Delimited (newline depth ++ cs) :=
  delimited_cons (by decide) _

/-! ### Lines -/

theorem length_le_prettyItems (depth : Nat) (vs : List Value) :
    vs.length ≤ (prettyItems depth vs).length := by
  induction vs with
  | nil => exact Nat.zero_le _
  | cons v vs ih =>
    cases vs with
    | nil =>
      simp only [prettyItems, newline, List.length_append, List.length_cons, List.length_nil]
      omega
    | cons w vs =>
      simp only [prettyItems, newline, List.length_append, List.length_cons] at ih ⊢
      omega

theorem length_le_prettyFields (depth : Nat) (kvs : Fields) :
    kvs.length ≤ (prettyFields depth kvs).length := by
  induction kvs with
  | nil => exact Nat.zero_le _
  | cons kv kvs ih =>
    obtain ⟨k, v⟩ := kv
    cases kvs with
    | nil =>
      simp only [prettyFields, newline, List.length_append, List.length_cons, List.length_nil]
      omega
    | cons w kvs =>
      simp only [prettyFields, newline, List.length_append, List.length_cons] at ih ⊢
      omega

/-- The first line of the items begins with a value, and that of the fields with a key. -/
theorem prettyItems_head (depth : Nat) (v : Value) (vs : List Value) :
    ∃ cs, prettyItems depth (v :: vs) = newline depth ++ (prettyAt depth v ++ cs) := by
  cases vs with
  | nil => exact ⟨[], by rw [prettyItems, List.append_nil]⟩
  | cons w vs => exact ⟨_, by rw [prettyItems]⟩

theorem prettyFields_head (depth : Nat) (kv : String × Value) (kvs : Fields) :
    ∃ cs, prettyFields depth (kv :: kvs) = newline depth ++ '"' :: cs := by
  obtain ⟨k, v⟩ := kv
  cases kvs with
  | nil => exact ⟨_, by rw [prettyFields, printString, List.cons_append]⟩
  | cons w kvs => exact ⟨_, by rw [prettyFields, printString, List.cons_append]⟩

theorem prettyAt_head (depth : Nat) (v : Value) :
    ∃ c cs, prettyAt depth v = c :: cs ∧ isBlank c = false ∧ c ≠ ']' := by
  have hprint : ∃ c cs, print v = c :: cs ∧ isBlank c = false ∧ c ≠ ']' := by
    obtain ⟨c, cs, htext, hblank, hclose, -⟩ := print_head v
    exact ⟨c, cs, htext, hblank, hclose⟩
  cases v with
  | arr items => cases items <;> exact ⟨'[', _, by rw [prettyAt], by decide, by decide⟩
  | obj fields => cases fields <;> exact ⟨'{', _, by rw [prettyAt], by decide, by decide⟩
  | null | bool b | int n | float x | str s => exact hprint

/-! ### Arrays and objects -/

section Loops

variable (item : List Char → Except ParseError (Value × List Char))

/-- `item` reads the value as it is written over several lines, and stops behind it. -/
def ReadsPretty (v : Value) : Prop :=
  ∀ depth rest, Delimited rest → item (prettyAt depth v ++ rest) = .ok (v, rest)

/-- `item` skips blanks. -/
def SkipsBlanks : Prop := ∀ blanks, (∀ c ∈ blanks, isBlank c = true) → ∀ cs, item (blanks ++ cs) = item cs

variable {item}

theorem parseItems_pretty (hskip : SkipsBlanks item) (depth inner : Nat) (vs : List Value) (hne : vs ≠ [])
    (hvs : ∀ v ∈ vs, ReadsPretty item v) (fuel : Nat) (hf : vs.length ≤ fuel) (rest : List Char) :
    parseItems item fuel (prettyItems inner vs ++ (newline depth ++ ']' :: rest)) = .ok (vs, rest) := by
  induction vs generalizing fuel with
  | nil => exact absurd rfl hne
  | cons v vs ih =>
    obtain ⟨fuel, rfl⟩ : ∃ k, fuel = k + 1 := ⟨fuel - 1, by simp at hf; omega⟩
    have hv := hvs v List.mem_cons_self
    have hline : ∀ cs, item (newline inner ++ cs) = item cs := hskip _ fun _ => isBlank_newline
    cases vs with
    | nil =>
      rw [prettyItems, List.append_assoc, parseItems, hline, hv inner _ (delimited_newline depth _)]
      simp only [bind, Except.bind, skipBlanks_newline, skipBlanks_cons (c := ']') (by decide)]
    | cons w ws =>
      have htail := ih (by simp) (fun u hu => hvs u (List.mem_cons_of_mem _ hu)) fuel
        (by simpa using hf)
      rw [prettyItems, List.append_assoc, List.append_assoc, List.cons_append, parseItems, hline,
        hv inner _ (delimited_comma _)]
      simp only [bind, Except.bind, skipBlanks_cons (c := ',') (by decide), htail]

theorem parseFields_pretty (hskip : SkipsBlanks item) (depth inner : Nat) (kvs : Fields) (hne : kvs ≠ [])
    (hkvs : ∀ kv ∈ kvs, ReadsPretty item kv.2) (fuel : Nat) (hf : kvs.length ≤ fuel)
    (rest : List Char) :
    parseFields item fuel (prettyFields inner kvs ++ (newline depth ++ '}' :: rest)) =
      .ok (kvs, rest) := by
  induction kvs generalizing fuel with
  | nil => exact absurd rfl hne
  | cons kv kvs ih =>
    obtain ⟨k, v⟩ := kv
    obtain ⟨fuel, rfl⟩ : ∃ m, fuel = m + 1 := ⟨fuel - 1, by simp at hf; omega⟩
    have hv : ReadsPretty item v := hkvs (k, v) List.mem_cons_self
    have hkey : ∀ cs, parseKey (newline inner ++ (printString k ++ ':' :: cs)) = .ok (k, cs) := by
      intro cs
      rw [parseKey_blanks fun _ => isBlank_newline, parseKey_print]
    have hblank : ∀ cs, item (' ' :: cs) = item cs :=
      hskip [' '] (List.all_eq_true.1 rfl)
    -- the last field is followed by the closing brace
    cases kvs with
    | nil =>
      rw [prettyFields, List.append_assoc, List.append_assoc, List.cons_append, List.cons_append,
        parseFields, hkey]
      simp only [bind, Except.bind, hblank, hv inner _ (delimited_newline depth _), skipBlanks_newline,
        skipBlanks_cons (c := '}') (by decide)]
    -- another field follows behind a comma
    | cons w ws =>
      have htail := ih (by simp) (fun u hu => hkvs u (List.mem_cons_of_mem _ hu)) fuel
        (by simpa using hf)
      rw [prettyFields, List.append_assoc, List.append_assoc, List.cons_append, List.cons_append,
        List.append_assoc, List.cons_append, parseFields, hkey]
      simp only [bind, Except.bind, hblank, hv inner _ (delimited_comma _),
        skipBlanks_cons (c := ',') (by decide), htail]

theorem parseItems_blanks (hskip : SkipsBlanks item) (fuel : Nat) {blanks : List Char}
    (h : ∀ c ∈ blanks, isBlank c = true) (cs : List Char) :
    parseItems item fuel (blanks ++ cs) = parseItems item fuel cs := by
  cases fuel with
  | zero => rfl
  | succ fuel => rw [parseItems, parseItems, hskip _ h]

theorem parseFields_blanks (item : List Char → Except ParseError (Value × List Char)) (fuel : Nat)
    {blanks : List Char} (h : ∀ c ∈ blanks, isBlank c = true) (cs : List Char) :
    parseFields item fuel (blanks ++ cs) = parseFields item fuel cs := by
  cases fuel with
  | zero => rfl
  | succ fuel => rw [parseFields, parseFields, parseKey_blanks h]

end Loops

/-- An array or object that is not empty goes to its items, on the next line. -/
theorem parseContainer_line {α : Type} {close : Char} {wrap : List α → Value}
    {items : List Char → Except ParseError (List α × List Char)} {depth : Nat} {c : Char}
    {cs rest : List Char} {read : List α} (hblank : isBlank c = false) (hclose : c ≠ close)
    (hitems : items (c :: cs) = .ok (read, rest)) :
    parseContainer close wrap items (newline depth ++ c :: cs) = .ok (wrap read, rest) := by
  rw [parseContainer, skipBlanks_newline, skipBlanks_cons hblank]
  dsimp only
  rw [if_neg hclose, hitems]
  rfl

/-! ### Values -/

theorem skipsBlanks_parseValue (n : Nat) : SkipsBlanks (parseValue n) :=
  fun _ hblanks cs => parseValue_blanks n hblanks cs

/-- **Round trip** over several lines. -/
theorem parseValue_pretty (n : Nat) (v : Value) (h : v.depth ≤ n) : ReadsPretty (parseValue n) v := by
  induction n generalizing v with
  | zero =>
    intro depth rest hrest
    cases v with
    | arr items => simp [Value.depth] at h
    | obj fields => simp [Value.depth] at h
    | null | bool b | int n | float x | str s => exact parseValue_print_scalar 0 rfl rest hrest
  | succ n ih =>
    intro depth rest hrest
    cases v with
    | arr items =>
      rw [Value.depth, Nat.add_le_add_iff_right, depthItems_le_iff] at h
      cases items with
      | nil => simp [prettyAt, parseValue, parseContainer, skipBlanks, isBlank]
      | cons v vs =>
        obtain ⟨cs, hcs⟩ := prettyItems_head (depth + 1) v vs
        obtain ⟨c, text, htext, hblank, hclose⟩ := prettyAt_head (depth + 1) v
        -- one step of fuel for each item suffices
        have hlen := length_le_prettyItems (depth + 1) (v :: vs)
        have hread : ∀ fuel, (v :: vs).length ≤ fuel → parseItems (parseValue n) fuel
            (prettyItems (depth + 1) (v :: vs) ++ (newline depth ++ ']' :: rest)) =
              .ok (v :: vs, rest) := fun fuel hf =>
          parseItems_pretty (skipsBlanks_parseValue n) depth (depth + 1) (v :: vs)
            (List.cons_ne_nil v vs) (fun w hw => ih w (h w hw)) fuel hf rest
        have hassoc : prettyAt depth (.arr (v :: vs)) ++ rest = '[' ::
            (prettyItems (depth + 1) (v :: vs) ++ (newline depth ++ ']' :: rest)) := by
          simp [prettyAt]
        have hline : prettyItems (depth + 1) (v :: vs) ++ (newline depth ++ ']' :: rest) =
            newline (depth + 1) ++ c :: (text ++ cs ++ (newline depth ++ ']' :: rest)) := by
          rw [hcs, htext]
          simp
        -- the items begin on a line of their own
        have hfuel := hread
          ((prettyItems (depth + 1) (v :: vs) ++ (newline depth ++ ']' :: rest)).length + 1)
          (by rw [List.length_append]; omega)
        rw [hassoc, parseValue, skipBlanks_cons (by decide)]
        rw [hline, parseItems_blanks (skipsBlanks_parseValue n) _ fun _ => isBlank_newline] at hfuel
        rw [hline]
        exact parseContainer_line hblank hclose hfuel
    | obj fields =>
      rw [Value.depth, Nat.add_le_add_iff_right, depthFields_le_iff] at h
      cases fields with
      | nil => simp [prettyAt, parseValue, parseContainer, skipBlanks, isBlank]
      | cons kv kvs =>
        obtain ⟨cs, hcs⟩ := prettyFields_head (depth + 1) kv kvs
        have hlen := length_le_prettyFields (depth + 1) (kv :: kvs)
        have hread : ∀ fuel, (kv :: kvs).length ≤ fuel → parseFields (parseValue n) fuel
            (prettyFields (depth + 1) (kv :: kvs) ++ (newline depth ++ '}' :: rest)) =
              .ok (kv :: kvs, rest) := fun fuel hf =>
          parseFields_pretty (skipsBlanks_parseValue n) depth (depth + 1) (kv :: kvs)
            (List.cons_ne_nil kv kvs) (fun w hw => ih w.2 (h w hw)) fuel hf rest
        have hassoc : prettyAt depth (.obj (kv :: kvs)) ++ rest = '{' ::
            (prettyFields (depth + 1) (kv :: kvs) ++ (newline depth ++ '}' :: rest)) := by
          simp [prettyAt]
        have hline : prettyFields (depth + 1) (kv :: kvs) ++ (newline depth ++ '}' :: rest) =
            newline (depth + 1) ++ '"' :: (cs ++ (newline depth ++ '}' :: rest)) := by
          rw [hcs]
          simp
        have hfuel := hread
          ((prettyFields (depth + 1) (kv :: kvs) ++ (newline depth ++ '}' :: rest)).length + 1)
          (by rw [List.length_append]; omega)
        rw [hassoc, parseValue, skipBlanks_cons (by decide)]
        rw [hline, parseFields_blanks _ _ fun _ => isBlank_newline] at hfuel
        rw [hline]
        exact parseContainer_line (by decide) (by decide) hfuel
    | null | bool b | int n | float x | str s => exact parseValue_print_scalar _ rfl rest hrest

/-- A document over several lines with a newline behind it, as it is written to a file. -/
theorem fromStr_pretty {v : Value} (h : v.depth ≤ maxDepth) {blanks : List Char}
    (hblanks : ∀ c ∈ blanks, isBlank c = true) : fromStr (pretty v ++ blanks) = .ok v := by
  have hdelimited : Delimited blanks := by
    intro c hc
    have hmem := hblanks c (List.mem_of_mem_head? hc)
    rw [Bool.eq_false_iff]
    intro hnumber
    rw [isBlank_of_isNumberChar hnumber] at hmem
    cases hmem
  have hread := parseValue_pretty maxDepth v h 0 blanks hdelimited
  have hrest : skipBlanks blanks = [] := by
    exact List.dropWhile_eq_nil_iff.2 hblanks
  unfold fromStr pretty
  rw [hread]
  simp [bind, Except.bind, hrest]

end AgentHub.Json
