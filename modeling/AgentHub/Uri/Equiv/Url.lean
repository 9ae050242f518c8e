import AgentHub.Json.Equiv.Utf8
import AgentHub.Uri.Url
import Mathlib

/-!
# Round trips of texts in URLs

What `encodeURIComponent` gives is decoded to what it was given (`decodeURIComponent_encode`) and is
one segment of a path that a URL keeps, unless it is a dot or two dots (`resolve_segments`).  The
parameters of a query are read as they were written (`params_serialize`).
-/

namespace AgentHub.Uri

open AgentHub.Json

/-! ### Escapes -/

theorem hexValue_hexDigit : ∀ n < 16, hexValue (hexDigit n) = some n := by decide

theorem hexDigit_alphanum : ∀ n < 16, (hexDigit n).isAlphanum = true := by decide

theorem percentDecode_escape {hi lo : Char} {h l : Nat} (hhi : hexValue hi = some h)
    (hlo : hexValue lo = some l) (text : List Char) :
    percentDecode ('%' :: hi :: lo :: text) =
      (percentDecode text).map (UInt8.ofNat (16 * h + l) :: ·) := by
  rw [percentDecode, hhi, hlo]
  cases percentDecode text with
  | none => rfl
  | some bytes => rfl

theorem percentDecode_percentByte (b : UInt8) (text : List Char) :
    percentDecode (percentByte b ++ text) = (percentDecode text).map (b :: ·) := by
  have hlt := b.toNat_lt
  have hdigits : 16 * (b.toNat / 16) + b.toNat % 16 = b.toNat := by omega
  rw [percentByte, List.cons_append, List.cons_append, List.cons_append, List.nil_append,
    percentDecode_escape (hexValue_hexDigit _ (by omega)) (hexValue_hexDigit _ (by omega)), hdigits,
    UInt8.ofNat_toNat]

theorem percentDecode_cons {c : Char} (h : c ≠ '%') (text : List Char) :
    percentDecode (c :: text) = (percentDecode text).map (String.utf8EncodeChar c ++ ·) := by
  rw [percentDecode]
  · rw [if_neg h]
  · rintro hi lo rest rfl
    exact absurd rfl h

theorem percentDecode_bytes (bytes : List UInt8) (text : List Char) :
    percentDecode (bytes.flatMap percentByte ++ text) =
      (percentDecode text).map (bytes ++ ·) := by
  induction bytes with
  | nil => simp
  | cons b bytes ih =>
    rw [List.flatMap_cons, List.append_assoc, percentDecode_percentByte, ih, Option.map_map]
    rfl

/-- **What was encoded** is decoded, whatever was kept but percent signs. -/
theorem percentDecode_encode {keep : Char → Bool} (hkeep : keep '%' = false) (text : List Char) :
    percentDecode (percentEncode keep text) = some (utf8 text) := by
  induction text with
  | nil => rfl
  | cons c text ih =>
    rw [percentEncode, List.flatMap_cons, utf8_cons]
    cases hc : keep c with
    | true =>
      have hne : c ≠ '%' := by
        rintro rfl
        rw [hkeep] at hc
        cases hc
      rw [if_pos rfl, List.singleton_append, percentDecode_cons hne]
      exact congrArg (Option.map _) ih
    | false =>
      rw [if_neg Bool.false_ne_true, percentDecode_bytes]
      exact congrArg (Option.map _) ih

theorem decodeURIComponent_of_bytes {text decoded : List Char}
    (h : percentDecode text = some (utf8 decoded)) : decodeURIComponent text = some decoded := by
  rw [decodeURIComponent, h, Option.bind_some, utf8Decode_utf8]
  rfl

/-- A text without escapes is what it is. -/
theorem decodeURIComponent_encode {keep : Char → Bool} (hkeep : keep '%' = false)
    (text : List Char) : decodeURIComponent (percentEncode keep text) = some text :=
  decodeURIComponent_of_bytes (percentDecode_encode hkeep text)

/-! ### Characters -/

/-- The characters of what is encoded: those that are kept, and those of escapes. -/
theorem mem_percentEncode {keep : Char → Bool} {text : List Char} {c : Char}
    (h : c ∈ percentEncode keep text) : keep c = true ∨ c = '%' ∨ c.isAlphanum = true := by
  obtain ⟨d, -, hd⟩ := List.mem_flatMap.1 h
  cases hkeep : keep d with
  | true =>
    rw [hkeep, if_pos rfl, List.mem_singleton] at hd
    rw [hd]
    exact Or.inl hkeep
  | false =>
    rw [hkeep, if_neg Bool.false_ne_true] at hd
    obtain ⟨b, -, hb⟩ := List.mem_flatMap.1 hd
    have hlt := b.toNat_lt
    rcases List.mem_cons.1 hb with rfl | hb
    · exact Or.inr (Or.inl rfl)
    · rcases List.mem_cons.1 hb with rfl | hb
      · exact Or.inr (Or.inr (hexDigit_alphanum _ (by omega)))
      · rw [List.mem_singleton.1 hb]
        exact Or.inr (Or.inr (hexDigit_alphanum _ (by omega)))

theorem isAlphanum_lt {c : Char} (h : c.isAlphanum = true) : c.toNat < 128 := by
  simp only [Char.isAlphanum, Char.isAlpha, Char.isUpper, Char.isLower, Char.isDigit,
    Bool.or_eq_true, decide_eq_true_eq, UInt32.le_iff_toNat_le, ge_iff_le, Bool.and_eq_true] at h
  have hval : c.toNat = c.val.toNat := rfl
  rcases h with (h | h) | h
  · have := h.2
    simp at this
    omega
  · have := h.2
    simp at this
    omega
  · have := h.2
    simp at this
    omega

/-- What holds of the characters below 128 that pass a test holds of all that do. -/
theorem of_ascii {test : Char → Bool} {P : Char → Prop} (hlt : ∀ c, test c = true → c.toNat < 128)
    (h : ∀ n < 128, test (Char.ofNat n) = true → P (Char.ofNat n)) {c : Char} (hc : test c = true) :
    P c := by
  have hself : Char.ofNat c.toNat = c := Char.ofNat_toNat c
  rw [← hself]
  exact h c.toNat (hlt c hc) (by rw [hself]; exact hc)

/-- The characters of segments. -/
def isSafe (c : Char) : Bool := isUnreserved c || c == '%'

theorem lt_of_contains {text : List Char} {n : Nat} {c : Char} (h : text.contains c = true)
    (hall : text.all (fun d => decide (d.toNat < n)) = true) : c.toNat < n :=
  of_decide_eq_true (List.all_eq_true.1 hall c (List.contains_iff_mem.1 h))

theorem isSafe_lt (c : Char) (h : isSafe c = true) : c.toNat < 128 := by
  rw [isSafe, isUnreserved, Bool.or_eq_true, Bool.or_eq_true] at h
  rcases h with (h | h) | h
  · exact isAlphanum_lt h
  · exact lt_of_contains h (by decide)
  · rw [beq_iff_eq.1 h]
    decide

theorem safe_encodeURIComponent {text : List Char} {c : Char} (h : c ∈ encodeURIComponent text) :
    isSafe c = true := by
  rw [isSafe, isUnreserved]
  rcases mem_percentEncode h with h | rfl | h
  · rw [isUnreserved] at h
    rw [h]
    rfl
  · rfl
  · rw [h]
    rfl

/-- What a path does with the characters of segments. -/
theorem isSafe_path {c : Char} (h : isSafe c = true) :
    isSlash c = false ∧ keptInPath c = true ∧ c ≠ '?' ∧ c ≠ '#' ∧ 0x20 < c.toNat := by
  refine of_ascii (P := fun c => isSlash c = false ∧ keptInPath c = true ∧ c ≠ '?' ∧ c ≠ '#' ∧
    0x20 < c.toNat) isSafe_lt ?_ h
  decide +kernel

theorem percentEncode_of_kept {keep : Char → Bool} {text : List Char}
    (h : ∀ c ∈ text, keep c = true) : percentEncode keep text = text := by
  induction text with
  | nil => rfl
  | cons c text ih =>
    rw [List.forall_mem_cons] at h
    rw [percentEncode, List.flatMap_cons, if_pos h.1]
    exact congrArg (c :: ·) (ih h.2)

/-! ### Dots -/

theorem text_of_bytes {text : List Char} {bytes : List UInt8} {s : List Char}
    (htext : percentDecode (encodeURIComponent text) = some bytes) (hs : bytes = utf8 s) :
    text = s := by
  rw [encodeURIComponent, percentDecode_encode (by decide)] at htext
  exact utf8_injective ((Option.some.inj htext).trans hs)

/-- Only a dot is encoded as one. -/
theorem isSingleDot_encode {text : List Char} (h : text ≠ ".".toList) :
    isSingleDot (encodeURIComponent text) = false := by
  rw [Bool.eq_false_iff]
  intro hdot
  have hforms : ∀ form ∈ dotForms, percentDecode form = some (utf8 ".".toList) := by decide
  exact h (text_of_bytes (hforms _ (List.contains_iff_mem.1 hdot)) rfl)

theorem isDoubleDot_encode {text : List Char} (h : text ≠ "..".toList) :
    isDoubleDot (encodeURIComponent text) = false := by
  rw [Bool.eq_false_iff]
  intro hdots
  have hforms : ∀ first ∈ dotForms, ∀ second ∈ dotForms,
      percentDecode (first ++ second) = some (utf8 "..".toList) := by decide
  obtain ⟨first, hfirst, hrest⟩ := List.any_eq_true.1 hdots
  obtain ⟨second, hsecond, heq⟩ := List.any_eq_true.1 hrest
  have hbytes := hforms first hfirst second hsecond
  rw [beq_iff_eq.1 heq] at hbytes
  exact h (text_of_bytes hbytes rfl)

/-! ### Paths -/

/-- A segment that a URL keeps. -/
structure Plain (segment : List Char) : Prop where
  safe : ∀ c ∈ segment, isSafe c = true
  single : isSingleDot segment = false
  double : isDoubleDot segment = false

theorem plain_encode {text : List Char} (hdot : text ≠ ".".toList) (hdots : text ≠ "..".toList) :
    Plain (encodeURIComponent text) where
  safe := fun _ => safe_encodeURIComponent
  single := isSingleDot_encode hdot
  double := isDoubleDot_encode hdots

theorem Plain.percentEncode {segment : List Char} (h : Plain segment) :
    percentEncode keptInPath segment = segment :=
  percentEncode_of_kept fun c hc => (isSafe_path (h.safe c hc)).2.1

theorem addSegments_plain {segments : List (List Char)} (h : ∀ s ∈ segments, Plain s)
    (path : List (List Char)) : addSegments path segments = path ++ segments := by
  induction segments generalizing path with
  | nil => rw [addSegments, List.append_nil]
  | cons segment segments ih =>
    rw [List.forall_mem_cons] at h
    obtain ⟨hplain, hrest⟩ := h
    cases segments with
    | nil =>
      rw [addSegments, hplain.double, hplain.single, if_neg Bool.false_ne_true,
        if_neg Bool.false_ne_true, hplain.percentEncode]
    | cons next segments =>
      rw [addSegments, hplain.double, hplain.single, if_neg Bool.false_ne_true,
        if_neg Bool.false_ne_true, hplain.percentEncode, ih hrest, List.append_assoc,
        List.singleton_append]
      · simp

/-- A path with these segments. -/
def pathOf (segments : List (List Char)) : List Char := segments.flatMap ('/' :: ·)

theorem splitOnP_pathOf {segments : List (List Char)} (h : ∀ s ∈ segments, Plain s)
    {segment : List Char} (hsegment : Plain segment) :
    (segment ++ pathOf segments).splitOnP isSlash = segment :: segments := by
  induction segments generalizing segment with
  | nil =>
    rw [pathOf, List.flatMap_nil, List.append_nil]
    exact List.splitOnP_eq_singleton fun c hc => (isSafe_path (hsegment.safe c hc)).1
  | cons next segments ih =>
    rw [List.forall_mem_cons] at h
    rw [pathOf, List.flatMap_cons, List.cons_append,
      List.splitOnP_append_cons_of_forall_mem (fun c hc => (isSafe_path (hsegment.safe c hc)).1) '/'
        rfl]
    exact congrArg (segment :: ·) (ih h.2 h.1)

theorem safe_pathOf {segments : List (List Char)} (h : ∀ s ∈ segments, Plain s) {c : Char}
    (hc : c ∈ pathOf segments) : c = '/' ∨ isSafe c = true := by
  obtain ⟨segment, hsegment, hmem⟩ := List.mem_flatMap.1 hc
  rcases List.mem_cons.1 hmem with rfl | hmem
  · exact Or.inl rfl
  · exact Or.inr ((h segment hsegment).safe c hmem)

/-- What stands before a separator, and what after it. -/
theorem cut_append {sep : Char} {before : List Char} (h : sep ∉ before) (rest : List Char) :
    cut sep (before ++ sep :: rest) = (before, some rest) := by
  have hall : ∀ c ∈ before, decide (c ≠ sep) = true := by
    intro c hc
    rw [decide_eq_true_eq]
    rintro rfl
    exact h hc
  unfold cut
  rw [List.takeWhile_append_of_pos hall, List.dropWhile_append_of_pos hall,
    List.takeWhile_cons_of_neg (by simp), List.dropWhile_cons_of_neg (by simp), List.append_nil,
    if_pos (by simp)]
  rfl

theorem cut_of_notMem {sep : Char} {text : List Char} (h : sep ∉ text) :
    cut sep text = (text, none) := by
  have hall : ∀ c ∈ text, decide (c ≠ sep) = true := by
    intro c hc
    rw [decide_eq_true_eq]
    rintro rfl
    exact h hc
  unfold cut
  rw [List.takeWhile_eq_self_iff.2 hall, if_neg h]

/-- Nothing is taken out of a text of such characters. -/
theorem cleaned_of_visible {text : List Char} (h : ∀ c ∈ text, 0x20 < c.toNat) :
    cleaned text = text := by
  have hblank : ∀ l : List Char, (∀ c ∈ l, 0x20 < c.toNat) →
      l.dropWhile (fun c => decide (c.toNat ≤ 0x20)) = l := by
    intro l hl
    refine List.dropWhile_eq_self_iff.2 ?_
    intro hpos
    rw [decide_eq_true_eq, Nat.not_le]
    exact hl _ (List.getElem_mem hpos)
  unfold cleaned
  dsimp only
  rw [hblank text h, hblank text.reverse (fun c hc => h c (List.mem_reverse.1 hc)),
    List.reverse_reverse]
  refine List.filter_eq_self.2 ?_
  intro c hc
  have hlt := h c hc
  rw [Bool.not_eq_true', Bool.eq_false_iff]
  intro hmem
  have hle : c.toNat < 0x21 := lt_of_contains hmem (by decide)
  omega

/-- The characters of a query. -/
def isQuerySafe (c : Char) : Bool := isFormUnreserved c || "+%=&".toList.contains c

theorem isQuerySafe_lt (c : Char) (h : isQuerySafe c = true) : c.toNat < 128 := by
  rw [isQuerySafe, isFormUnreserved, Bool.or_eq_true, Bool.or_eq_true] at h
  rcases h with (h | h) | h
  · exact isAlphanum_lt h
  · exact lt_of_contains h (by decide)
  · exact lt_of_contains h (by decide)

theorem isQuerySafe_kept {c : Char} (h : isQuerySafe c = true) :
    keptInQuery c = true ∧ c ≠ '#' ∧ 0x20 < c.toNat := by
  refine of_ascii (P := fun c => keptInQuery c = true ∧ c ≠ '#' ∧ 0x20 < c.toNat) isQuerySafe_lt ?_ h
  decide +kernel

/-- The text of a reference to a path with a query or none. -/
def referenceOf (segments : List (List Char)) (query : Option (List Char)) : List Char :=
  pathOf segments ++ query.elim [] ('?' :: ·)

/-- **A reference of such segments** is resolved to what it says. -/
theorem resolve_reference {segment : List Char} {segments : List (List Char)} (hne : segment ≠ [])
    (h : ∀ s ∈ segment :: segments, Plain s) {query : Option (List Char)}
    (hquery : ∀ q ∈ query, ∀ c ∈ q, isQuerySafe c = true) :
    resolve (referenceOf (segment :: segments) query) =
      some { pathname := pathOf (segment :: segments), query } := by
  have hpath : ∀ c ∈ pathOf (segment :: segments), c = '/' ∨ isSafe c = true := fun _ => safe_pathOf h
  have htail : ∀ c ∈ query.elim [] ('?' :: ·), c = '?' ∨ isQuerySafe c = true := by
    intro c hc
    cases query with
    | none => cases hc
    | some q =>
      rcases List.mem_cons.1 hc with rfl | hc
      · exact Or.inl rfl
      · exact Or.inr (hquery q rfl c hc)
  -- nothing is trimmed or removed from the reference
  have hvisible : ∀ c ∈ referenceOf (segment :: segments) query, 0x20 < c.toNat := by
    intro c hc
    rcases List.mem_append.1 hc with hc | hc
    · rcases hpath c hc with rfl | hsafe
      · decide
      · exact (isSafe_path hsafe).2.2.2.2
    · rcases htail c hc with rfl | hsafe
      · decide
      · exact (isQuerySafe_kept hsafe).2.2
  obtain ⟨hplain, hrest⟩ := List.forall_mem_cons.1 h
  -- the hash and the question mark stand where they were put
  have hhash : '#' ∉ segment ++ pathOf segments ++ query.elim [] ('?' :: ·) := by
    intro hmem
    rcases List.mem_append.1 hmem with hmem | hmem
    · rcases hpath '#' (List.mem_cons_of_mem _ hmem) with heq | hsafe
      · exact absurd heq (by decide)
      · exact (isSafe_path hsafe).2.2.2.1 rfl
    · rcases htail '#' hmem with heq | hsafe
      · exact absurd heq (by decide)
      · exact (isQuerySafe_kept hsafe).2.1 rfl
  have hmark : '?' ∉ segment ++ pathOf segments := by
    intro hmem
    rcases hpath '?' (List.mem_cons_of_mem _ hmem) with heq | hsafe
    · exact absurd heq (by decide)
    · exact (isSafe_path hsafe).2.2.1 rfl
  have hhead : (segment ++ pathOf segments ++ query.elim [] ('?' :: ·)).head?.any isSlash = false := by
    obtain ⟨c, segment, rfl⟩ := List.exists_cons_of_ne_nil hne
    exact (isSafe_path (hplain.safe c List.mem_cons_self)).1
  -- the query is cut off at the only question mark
  have hcut : cut '?' (segment ++ pathOf segments ++ query.elim [] ('?' :: ·)) =
      (segment ++ pathOf segments, query) := by
    cases query with
    | none =>
      rw [Option.elim_none, List.append_nil]
      exact cut_of_notMem hmark
    | some q => exact cut_append hmark q
  -- and needs no further escaping
  have hencode : query.map (percentEncode keptInQuery) = query := by
    cases query with
    | none => rfl
    | some q =>
      exact congrArg some
        (percentEncode_of_kept fun c hc => (isQuerySafe_kept (hquery q rfl c hc)).1)
  have htext : referenceOf (segment :: segments) query =
      '/' :: (segment ++ pathOf segments ++ query.elim [] ('?' :: ·)) := rfl
  rw [resolve, cleaned_of_visible hvisible, htext]
  dsimp only
  rw [if_pos ⟨rfl, by rw [hhead]; exact Bool.false_ne_true⟩, cut_of_notMem hhash, hcut]
  dsimp only
  -- no segment is a dot, so each is kept
  rw [splitOnP_pathOf hrest hplain, addSegments_plain h, List.nil_append, hencode]
  rfl

/-! ### Queries -/

/-- What is kept before blanks become plus signs. -/
def isFormKept (c : Char) : Bool := isFormUnreserved c || c == ' '

theorem isFormKept_lt (c : Char) (h : isFormKept c = true) : c.toNat < 128 := by
  rw [isFormKept, Bool.or_eq_true] at h
  rcases h with h | h
  · refine isQuerySafe_lt c ?_
    rw [isQuerySafe, h]
    rfl
  · rw [beq_iff_eq.1 h]
    decide

/-- A plus sign is written as an escape. -/
theorem plus_notMem_encode (text : List Char) : '+' ∉ percentEncode isFormKept text := by
  intro hmem
  rcases mem_percentEncode hmem with h | h | h
  · exact absurd h (by decide)
  · exact absurd h (by decide)
  · exact absurd h (by decide)

/-- **A name or a value** is read as it was written. -/
theorem read_formEncode (decoder : Decoder) (s : String) :
    decoder.read (formEncode s.toList) = s := by
  have hblanks : (formEncode s.toList).map (fun c => if c = '+' then ' ' else c) =
      percentEncode isFormKept s.toList := by
    have hsame : ∀ c ∈ percentEncode isFormKept s.toList,
        (if (if c = ' ' then '+' else c) = '+' then ' ' else if c = ' ' then '+' else c) = c := by
      intro c hc
      have hplus : c ≠ '+' := by
        rintro rfl
        exact plus_notMem_encode _ hc
      by_cases hblank : c = ' '
      · rw [hblank]
        rfl
      · rw [if_neg hblank, if_neg hplus]
    show ((percentEncode isFormKept s.toList).map _).map _ = _
    rw [List.map_map]
    exact (List.map_congr_left hsame).trans (List.map_id' _)
  rw [Decoder.read, hblanks,
    decoder.decodes _ _ (decodeURIComponent_encode (by decide) s.toList), String.ofList_toList]

/-- The characters of a name or a value. -/
theorem safe_formEncode {text : List Char} {c : Char} (h : c ∈ formEncode text) :
    isQuerySafe c = true ∧ c ≠ '&' ∧ c ≠ '=' := by
  obtain ⟨d, hd, rfl⟩ := List.mem_map.1 h
  have hkept : ∀ {c : Char}, isFormKept c = true →
      isQuerySafe (if c = ' ' then '+' else c) = true ∧ (if c = ' ' then '+' else c) ≠ '&' ∧
        (if c = ' ' then '+' else c) ≠ '=' := by
    intro c hc
    refine of_ascii (P := fun c => isQuerySafe (if c = ' ' then '+' else c) = true ∧
      (if c = ' ' then '+' else c) ≠ '&' ∧ (if c = ' ' then '+' else c) ≠ '=') isFormKept_lt ?_ hc
    decide +kernel
  rcases mem_percentEncode hd with h | rfl | h
  · exact hkept h
  · decide +kernel
  · refine hkept ?_
    rw [isFormKept, isFormUnreserved, h]
    rfl

theorem mem_intercalate {sep c : Char} {pieces : List (List Char)}
    (h : c ∈ List.intercalate [sep] pieces) : c = sep ∨ ∃ piece ∈ pieces, c ∈ piece := by
  induction pieces with
  | nil => cases h
  | cons piece pieces ih =>
    cases pieces with
    | nil => exact Or.inr ⟨piece, List.mem_cons_self, by simpa [List.intercalate] using h⟩
    | cons next pieces =>
      rw [List.intercalate_cons_cons, List.mem_append, List.mem_append, List.mem_singleton] at h
      rcases h with (h | h) | h
      · exact Or.inr ⟨piece, List.mem_cons_self, h⟩
      · exact Or.inl h
      · rcases ih h with h | ⟨found, hfound, h⟩
        · exact Or.inl h
        · exact Or.inr ⟨found, List.mem_cons_of_mem _ hfound, h⟩

theorem mem_serialize {params : Params} {c : Char} (h : c ∈ serialize params) :
    isQuerySafe c = true := by
  have hpiece : ∀ piece ∈ params.map (fun kv => formEncode kv.1.toList ++ '=' :: formEncode kv.2.toList),
      ∀ c ∈ piece, isQuerySafe c = true := by
    intro piece hpiece c hc
    obtain ⟨kv, -, rfl⟩ := List.mem_map.1 hpiece
    rcases List.mem_append.1 hc with hc | hc
    · exact (safe_formEncode hc).1
    · rcases List.mem_cons.1 hc with rfl | hc
      · decide
      · exact (safe_formEncode hc).1
  rcases mem_intercalate h with rfl | ⟨piece, hmem, hc⟩
  · decide
  · exact hpiece piece hmem c hc

/-- **The parameters** of a query are read as they were written. -/
theorem params_serialize (decoder : Decoder) (params : Params) :
    decoder.params (serialize params) = params := by
  cases params with
  | nil => rfl
  | cons first params =>
    rw [Decoder.params, serialize, List.splitOn_intercalate]
    · rw [List.filter_eq_self.2, List.map_map]
      · refine (List.map_congr_left ?_).trans (List.map_id' _)
        intro kv _
        have hname : '=' ∉ formEncode kv.1.toList := fun hmem => (safe_formEncode hmem).2.2 rfl
        show (decoder.read (cut '=' _).1, decoder.read ((cut '=' _).2.getD [])) = kv
        rw [cut_append hname, Option.getD_some, read_formEncode, read_formEncode]
      · intro piece hpiece
        obtain ⟨kv, -, rfl⟩ := List.mem_map.1 hpiece
        simp
    · intro piece hpiece hmem
      obtain ⟨kv, -, rfl⟩ := List.mem_map.1 hpiece
      rcases List.mem_append.1 hmem with hmem | hmem
      · exact (safe_formEncode hmem).2.1 rfl
      · rcases List.mem_cons.1 hmem with heq | hmem
        · exact absurd heq (by decide)
        · exact (safe_formEncode hmem).2.1 rfl
    · simp

theorem lookup_filter_ne {params : Params} {name k : String} (h : k ≠ name) :
    (params.filter fun kv => decide (kv.1 ≠ name)).lookup k = params.lookup k := by
  induction params with
  | nil => rfl
  | cons kv params ih =>
    by_cases hkv : kv.1 = name
    · rw [List.filter_cons_of_neg (by simp [hkv]), ih, List.lookup_cons, beq_false_of_ne (hkv ▸ h)]
    · rw [List.filter_cons_of_pos (by simp [hkv]), List.lookup_cons, List.lookup_cons, ih]

theorem Params.lookup_set (params : Params) (name value k : String) :
    (params.set name value).lookup k = if k = name then some value else params.lookup k := by
  induction params with
  | nil =>
    rw [Params.set, List.lookup_cons]
    by_cases h : k = name
    · rw [if_pos h, beq_iff_eq.2 h]
    · rw [if_neg h, beq_false_of_ne h]
  | cons kv params ih =>
    rw [Params.set]
    by_cases hkv : kv.1 = name
    · rw [if_pos hkv, List.lookup_cons]
      by_cases h : k = name
      · simp [h]
      · rw [beq_false_of_ne h, if_neg h]
        dsimp only
        rw [lookup_filter_ne h, List.lookup_cons, beq_false_of_ne (hkv ▸ h)]
    · rw [if_neg hkv, List.lookup_cons, ih, List.lookup_cons]
      by_cases h : k = name
      · have hne : k ≠ kv.1 := fun heq => hkv (heq.symm.trans h)
        rw [beq_false_of_ne hne, if_pos h]
      · rw [if_neg h, if_neg h]

theorem Params.lookup_append {params : Params} {name k : String} (h : k ≠ name) (value : String) :
    (params.append name value).lookup k = params.lookup k := by
  rw [Params.append, List.lookup_append, List.lookup_cons, beq_false_of_ne h]
  simp

theorem Params.getAll_set {params : Params} {name k : String} (h : k ≠ name) (value : String) :
    (params.set name value).getAll k = params.getAll k := by
  induction params with
  | nil => simp [Params.set, Params.getAll, Ne.symm h]
  | cons kv params ih =>
    rw [Params.set]
    by_cases hkv : kv.1 = name
    · have hne : kv.1 ≠ k := fun heq => h (heq.symm.trans hkv)
      rw [if_pos hkv]
      unfold Params.getAll
      rw [List.filter_cons_of_neg (by simpa using Ne.symm h), List.filter_cons_of_neg (by simpa using hne),
        List.filter_filter]
      congr 2
      funext kv'
      by_cases hk : kv'.1 = k
      · simp [hk, h]
      · simp [hk]
    · rw [if_neg hkv]
      unfold Params.getAll at ih ⊢
      by_cases hk : kv.1 = k
      · rw [List.filter_cons_of_pos (by simpa using hk), List.filter_cons_of_pos (by simpa using hk),
          List.map_cons, List.map_cons, ih]
      · rw [List.filter_cons_of_neg (by simpa using hk), List.filter_cons_of_neg (by simpa using hk), ih]

theorem Params.getAll_append (params : Params) (name value k : String) :
    (params.append name value).getAll k = params.getAll k ++ if name = k then [value] else [] := by
  unfold Params.getAll Params.append
  rw [List.filter_append, List.map_append]
  by_cases h : name = k <;> simp [h]

end AgentHub.Uri
