import AgentHub.Uri.Equiv.Url
import AgentHub.Uri.Router

/-!
# What reaches a route

The segments of a path that were encoded are matched one by one, whatever they were, and a parameter
is what was encoded (`splitOn_getPath`, `param_held`).
-/

namespace AgentHub.Uri

open AgentHub.Json

/-! ### Paths as they are matched -/

/-- The characters that are decoded in a path. -/
def isHeld (c : Char) : Bool := !(c == '%' || isReserved c)

/-- A segment as it is matched: percent signs and reserved characters are escapes still. -/
def held (text : List Char) : List Char := percentEncode isHeld text

theorem doublePercent_cons {c : Char} (h : c ≠ '%') (text : List Char) :
    doublePercent (c :: text) = c :: doublePercent text := by
  rw [doublePercent]
  rintro rest rfl
  exact absurd rfl h

theorem protect_cons {c : Char} (h : c ≠ '%') (text : List Char) :
    protect (c :: text) = c :: protect text := by
  rw [protect]
  rintro hi lo rest rfl
  exact absurd rfl h

/-- The digits of a byte other than that of the percent sign. -/
theorem doublePercent_percentByte {b : UInt8} (h : b ≠ 37) (text : List Char) :
    doublePercent (percentByte b ++ text) = percentByte b ++ doublePercent text := by
  have hlt := b.toNat_lt
  have hdigit : ∀ n < 16, hexDigit n ≠ '%' := by decide
  have hhi := hdigit (b.toNat / 16) (by omega)
  have hlo := hdigit (b.toNat % 16) (by omega)
  show doublePercent ('%' :: hexDigit (b.toNat / 16) :: hexDigit (b.toNat % 16) :: text) = _
  rw [doublePercent, doublePercent_cons hhi, doublePercent_cons hlo]
  · rfl
  · intro rest _ hrest
    have htwo : ∀ n < 16, hexDigit n = '2' → n = 2 := by decide
    have hfive : ∀ n < 16, hexDigit n = '5' → n = 5 := by decide
    have hdiv := htwo (b.toNat / 16) (by omega) (List.cons.inj hrest).1
    have hmod := hfive (b.toNat % 16) (by omega) (List.cons.inj (List.cons.inj hrest).2).1
    refine h (UInt8.toNat_inj.1 ?_)
    show b.toNat = 37
    omega

theorem protect_percentByte (b : UInt8) (text : List Char) :
    protect (percentByte b ++ text) =
      if isReserved (Char.ofNat b.toNat) then
        '%' :: '2' :: '5' :: hexDigit (b.toNat / 16) :: hexDigit (b.toNat % 16) :: protect text
      else percentByte b ++ protect text := by
  have hlt := b.toNat_lt
  have hbyte : 16 * (b.toNat / 16) + b.toNat % 16 = b.toNat := by omega
  show protect ('%' :: hexDigit (b.toNat / 16) :: hexDigit (b.toNat % 16) :: text) = _
  rw [protect, hexValue_hexDigit _ (by omega), hexValue_hexDigit _ (by omega)]
  dsimp only
  rw [hbyte]
  rfl

/-- The bytes of a path that is decoded. -/
def pathBytes (text : List Char) : Option (List UInt8) := percentDecode (protect (doublePercent text))

theorem pathBytes_cons {c : Char} (h : c ≠ '%') (text : List Char) :
    pathBytes (c :: text) = (pathBytes text).map (String.utf8EncodeChar c ++ ·) := by
  rw [pathBytes, doublePercent_cons h, protect_cons h, percentDecode_cons h]
  rfl

/-- Bytes that are neither a percent sign nor reserved. -/
theorem pathBytes_bytes {bytes : List UInt8}
    (h : ∀ b ∈ bytes, b ≠ 37 ∧ isReserved (Char.ofNat b.toNat) = false) (text : List Char) :
    pathBytes (bytes.flatMap percentByte ++ text) = (pathBytes text).map (bytes ++ ·) := by
  induction bytes with
  | nil => simp
  | cons b bytes ih =>
    obtain ⟨⟨hne, hreserved⟩, hrest⟩ := List.forall_mem_cons.1 h
    have hstep : pathBytes (percentByte b ++ (bytes.flatMap percentByte ++ text)) =
        (pathBytes (bytes.flatMap percentByte ++ text)).map (b :: ·) := by
      rw [pathBytes, doublePercent_percentByte hne, protect_percentByte, hreserved,
        if_neg Bool.false_ne_true, percentDecode_percentByte]
      rfl
    rw [List.flatMap_cons, List.append_assoc, hstep, ih hrest, Option.map_map]
    rfl

/-- A reserved character stays an escape. -/
theorem pathBytes_reserved {b : UInt8} (h : isReserved (Char.ofNat b.toNat) = true)
    (text : List Char) :
    pathBytes (percentByte b ++ text) = (pathBytes text).map (utf8 (percentByte b) ++ ·) := by
  have hlt := b.toNat_lt
  have hdigit : ∀ n < 16, hexDigit n ≠ '%' := by decide
  have hne : b ≠ 37 := by
    rintro rfl
    exact absurd h (by decide)
  rw [pathBytes, doublePercent_percentByte hne, protect_percentByte, h, if_pos rfl,
    percentDecode_escape (h := 2) (l := 5) rfl rfl, percentDecode_cons (hdigit _ (by omega)),
    percentDecode_cons (hdigit _ (by omega)), Option.map_map, Option.map_map]
  refine congrArg (Option.map · (pathBytes text)) (funext fun bytes => ?_)
  simp [percentByte, utf8, String.utf8EncodeChar]

/-- Bytes of a character that is neither. -/
theorem plainBytes_of_held {c : Char} (h : isHeld c = true) {b : UInt8}
    (hb : b ∈ String.utf8EncodeChar c) : b ≠ 37 ∧ isReserved (Char.ofNat b.toNat) = false := by
  rw [isHeld, Bool.not_eq_true', Bool.or_eq_false_iff, beq_eq_false_iff_ne] at h
  have hlt := b.toNat_lt
  by_cases hascii : b.toNat < 128
  · have hcode := mem_of_mem_utf8EncodeChar hascii hb
    have hself : Char.ofNat b.toNat = c := by rw [← hcode, Char.ofNat_toNat]
    refine ⟨?_, by rw [hself]; exact h.2⟩
    rintro rfl
    exact h.1 hself.symm
  · refine ⟨by rintro rfl; exact hascii (by decide), ?_⟩
    have hcode : (Char.ofNat b.toNat).toNat = b.toNat := by
      rw [Char.ofNat, dif_pos (Or.inl (by omega))]
      rfl
    rw [Bool.eq_false_iff]
    intro hreserved
    have hsmall : (Char.ofNat b.toNat).toNat < 128 := lt_of_contains hreserved (by decide)
    rw [hcode] at hsmall
    exact hascii hsmall

theorem isUnreserved_held {c : Char} (h : isUnreserved c = true) : isHeld c = true := by
  have hlt : ∀ c, isUnreserved c = true → c.toNat < 128 := by
    intro c hc
    refine isSafe_lt c ?_
    rw [isSafe, hc]
    rfl
  exact of_ascii (P := fun c => isHeld c = true) hlt (by decide +kernel) h

theorem utf8EncodeChar_reserved {c : Char} (h : isReserved c = true) :
    String.utf8EncodeChar c = [UInt8.ofNat c.toNat] ∧ (UInt8.ofNat c.toNat).toNat = c.toNat := by
  have hall : (";/?:@&=+$,#".toList.all fun d =>
      String.utf8EncodeChar d = [UInt8.ofNat d.toNat] ∧ (UInt8.ofNat d.toNat).toNat = d.toNat) =
        true := by
    decide
  exact of_decide_eq_true (List.all_eq_true.1 hall c (List.contains_iff_mem.1 h))

/-- A character of a path, as it is matched. -/
theorem pathBytes_char (c : Char) (text : List Char) :
    pathBytes (encodeURIComponent [c] ++ text) = (pathBytes text).map (utf8 (held [c]) ++ ·) := by
  have hencode : encodeURIComponent [c] =
      if isUnreserved c then [c] else (String.utf8EncodeChar c).flatMap percentByte :=
    List.append_nil _
  have hheld : held [c] =
      if isHeld c then [c] else (String.utf8EncodeChar c).flatMap percentByte := List.append_nil _
  rw [hencode, hheld]
  cases hkeep : isUnreserved c with
  -- the character stands for itself in both encodings
  | true =>
    have hne : c ≠ '%' := by
      rintro rfl
      cases hkeep
    rw [if_pos rfl, isUnreserved_held hkeep, if_pos rfl, List.singleton_append, pathBytes_cons hne]
    simp [utf8]
  | false =>
    rw [if_neg Bool.false_ne_true]
    -- it is held back by the URL parser, or escaped
    cases hc : isHeld c with
    | true =>
      rw [if_pos rfl, pathBytes_bytes fun b hb => plainBytes_of_held hc hb]
      simp [utf8]
    | false =>
      rw [if_neg Bool.false_ne_true]
      rw [isHeld, Bool.not_eq_false', Bool.or_eq_true, beq_iff_eq] at hc
      rcases hc with rfl | hreserved
      · -- The escape of the percent sign is doubled, and once decoded is what it was.
        show percentDecode (protect ('%' :: '2' :: '5' :: '2' :: '5' :: doublePercent text)) = _
        have hprotect : protect ('%' :: '2' :: '5' :: '2' :: '5' :: doublePercent text) =
            '%' :: '2' :: '5' :: '2' :: '5' :: protect (doublePercent text) := rfl
        rw [hprotect, percentDecode_escape (h := 2) (l := 5) rfl rfl, percentDecode_cons (by decide),
          percentDecode_cons (by decide), Option.map_map, Option.map_map]
        rfl
      · obtain ⟨hbytes, hcode⟩ := utf8EncodeChar_reserved hreserved
        rw [hbytes, List.flatMap_singleton]
        refine pathBytes_reserved ?_ text
        rw [hcode, Char.ofNat_toNat]
        exact hreserved

theorem pathBytes_segment (segment text : List Char) :
    pathBytes (encodeURIComponent segment ++ text) =
      (pathBytes text).map (utf8 (held segment) ++ ·) := by
  induction segment with
  | nil => simp [encodeURIComponent, held, percentEncode, utf8]
  | cons c segment ih =>
    have hencode : encodeURIComponent (c :: segment) =
        encodeURIComponent [c] ++ encodeURIComponent segment := by
      simp [encodeURIComponent, percentEncode]
    have hheld : held (c :: segment) = held [c] ++ held segment := by
      simp [held, percentEncode]
    rw [hencode, hheld, List.append_assoc, pathBytes_char, ih, Option.map_map, utf8_append]
    refine congrArg (Option.map · (pathBytes text)) (funext fun bytes => ?_)
    exact (List.append_assoc _ _ _).symm

theorem pathBytes_pathOf (segments : List (List Char)) :
    pathBytes (pathOf (segments.map encodeURIComponent)) =
      some (utf8 (pathOf (segments.map held))) := by
  induction segments with
  | nil => rfl
  | cons segment segments ih =>
    have hpath : pathOf ((segment :: segments).map encodeURIComponent) =
        '/' :: (encodeURIComponent segment ++ pathOf (segments.map encodeURIComponent)) := rfl
    have hheld : pathOf ((segment :: segments).map held) =
        '/' :: (held segment ++ pathOf (segments.map held)) := rfl
    rw [hpath, hheld, pathBytes_cons (by decide), pathBytes_segment, ih, Option.map_some,
      Option.map_some, utf8_cons, utf8_append]

/-- A text without percent signs is decoded as it is. -/
theorem percentDecode_of_notMem {text : List Char} (h : '%' ∉ text) :
    percentDecode text = some (utf8 text) := by
  have hkept : ∀ c ∈ text, (c != '%') = true := by
    intro c hc
    rw [bne_iff_ne]
    rintro rfl
    exact h hc
  have hdecode : percentDecode (percentEncode (· != '%') text) = some (utf8 text) :=
    percentDecode_encode rfl text
  rwa [percentEncode_of_kept hkept] at hdecode

theorem doublePercent_of_notMem {text : List Char} (h : '%' ∉ text) :
    protect (doublePercent text) = text := by
  induction text with
  | nil => rfl
  | cons c text ih =>
    rw [List.mem_cons, not_or] at h
    rw [doublePercent_cons (Ne.symm h.1), protect_cons (Ne.symm h.1), ih h.2]

section Server

variable (server : Server)

/-- **The path of encoded segments** as it is matched. -/
theorem getPath_pathOf (segments : List (List Char)) :
    server.getPath (pathOf (segments.map encodeURIComponent)) = pathOf (segments.map held) := by
  have hbytes := pathBytes_pathOf segments
  unfold Server.getPath
  split
  · exact server.decodesPath _ _ (decodeURIComponent_of_bytes hbytes)
  · next hnone =>
    rw [pathBytes, doublePercent_of_notMem hnone, percentDecode_of_notMem hnone] at hbytes
    exact utf8_injective (Option.some.inj hbytes)

theorem slash_notMem_held (segment : List Char) : '/' ∉ held segment := by
  intro hmem
  rcases mem_percentEncode hmem with h | h | h
  · exact absurd h (by decide)
  · exact absurd h (by decide)
  · exact absurd h (by decide)

theorem splitOn_pathOf (segments : List (List Char)) (h : ∀ s ∈ segments, '/' ∉ s) :
    (pathOf segments).splitOn '/' = [] :: segments := by
  induction segments with
  | nil => rfl
  | cons segment segments ih =>
    obtain ⟨hsegment, hrest⟩ := List.forall_mem_cons.1 h
    have hpath : pathOf (segment :: segments) = [] ++ '/' :: (segment ++ pathOf segments) := rfl
    rw [hpath, List.splitOn_append_cons_self_of_not_mem (by simp)]
    refine congrArg ([] :: ·) ?_
    cases segments with
    | nil =>
      show (segment ++ []).splitOn '/' = _
      rw [List.append_nil, List.splitOn_eq_singleton hsegment]
    | cons next segments =>
      have hnext := ih hrest
      have hpath : pathOf (next :: segments) = '/' :: (next ++ pathOf segments) := rfl
      rw [hpath] at hnext ⊢
      rw [List.splitOn_append_cons_self_of_not_mem hsegment]
      have hstart : ('/' :: (next ++ pathOf segments)).splitOn '/' =
          [] :: (next ++ pathOf segments).splitOn '/' :=
        List.splitOn_append_cons_self_of_not_mem List.not_mem_nil _
      rw [hstart] at hnext
      exact congrArg (segment :: ·) (List.cons.inj hnext).2

/-- **The segments** that are compared with the patterns. -/
theorem splitOn_getPath (segments : List (List Char)) :
    (server.getPath (pathOf (segments.map encodeURIComponent))).splitOn '/' =
      [] :: segments.map held := by
  rw [getPath_pathOf]
  refine splitOn_pathOf _ fun s hs => ?_
  obtain ⟨segment, -, rfl⟩ := List.mem_map.1 hs
  exact slash_notMem_held segment

theorem held_ne_nil {segment : List Char} (h : segment ≠ []) : held segment ≠ [] := by
  intro hnil
  have hdecode : percentDecode (held segment) = some (utf8 segment) := percentDecode_encode rfl segment
  rw [hnil] at hdecode
  exact h (utf8_injective (Option.some.inj hdecode).symm)

/-- **A parameter** is what was encoded. -/
theorem param_held {params : List (List Char × List Char)} {name : String} {segment : List Char}
    (h : params.lookup name.toList = some (held segment)) :
    server.param params name = String.ofList segment := by
  have hbytes : percentDecode (held segment) = some (utf8 segment) := percentDecode_encode rfl segment
  have hdecode : decodeURIComponent (held segment) = some segment := decodeURIComponent_of_bytes hbytes
  unfold Server.param
  rw [h, Option.getD_some]
  dsimp only
  split
  · rw [server.component.decodes _ _ hdecode]
  · next hnone =>
    rw [percentDecode_of_notMem hnone] at hbytes
    rw [utf8_injective (Option.some.inj hbytes)]

end Server

end AgentHub.Uri
