import AgentHub.Json.Equiv.RoundTrip

/-!
# Texts as bytes

UTF-8 is a prefix code, so a text begins with another exactly when its bytes begin with the other's
(`utf8_prefix_iff`), and a byte below 128 in it is a character of the text (`mem_of_mem_utf8`).
-/

namespace AgentHub.Json

theorem utf8_append (a b : List Char) : utf8 (a ++ b) = utf8 a ++ utf8 b := List.flatMap_append

theorem utf8_cons (c : Char) (cs : List Char) : utf8 (c :: cs) = String.utf8EncodeChar c ++ utf8 cs :=
  List.flatMap_cons

/-- The first character is read off the bytes. -/
theorem utf8EncodeChar_append_inj {c d : Char} {s t : List UInt8}
    (h : String.utf8EncodeChar c ++ s = String.utf8EncodeChar d ++ t) : c = d ∧ s = t := by
  have hc : ByteArray.utf8DecodeChar? ((String.utf8EncodeChar c).toByteArray ++ s.toByteArray) 0 =
      some c := ByteArray.utf8DecodeChar?_utf8EncodeChar_append
  have hd : ByteArray.utf8DecodeChar? ((String.utf8EncodeChar d).toByteArray ++ t.toByteArray) 0 =
      some d := ByteArray.utf8DecodeChar?_utf8EncodeChar_append
  rw [← List.toByteArray_append, h, List.toByteArray_append, hd] at hc
  obtain rfl := Option.some.inj hc
  exact ⟨rfl, List.append_cancel_left h⟩

theorem utf8_prefix_iff {a b : List Char} : utf8 a <+: utf8 b ↔ a <+: b := by
  constructor
  · rintro ⟨t, h⟩
    induction a generalizing b with
    | nil => exact List.nil_prefix
    | cons c a ih =>
      cases b with
      | nil =>
        rw [utf8_cons, List.append_assoc] at h
        have hlength := congrArg List.length h
        have hpos := c.utf8Size_pos
        rw [List.length_append, String.length_utf8EncodeChar] at hlength
        simp only [utf8, List.flatMap_nil, List.length_nil] at hlength
        omega
      | cons d b =>
        rw [utf8_cons, utf8_cons, List.append_assoc] at h
        obtain ⟨rfl, hrest⟩ := utf8EncodeChar_append_inj h
        exact List.cons_prefix_cons.2 ⟨rfl, ih hrest⟩
  · rintro ⟨t, rfl⟩
    exact ⟨utf8 t, (utf8_append a t).symm⟩

theorem utf8_injective {a b : List Char} (h : utf8 a = utf8 b) : a = b := by
  have ha : a <+: b := utf8_prefix_iff.1 (h ▸ List.prefix_rfl)
  have hb : b <+: a := utf8_prefix_iff.1 (h ▸ List.prefix_rfl)
  exact ha.eq_of_length (Nat.le_antisymm ha.length_le hb.length_le)

/-- Only a character below 128 has a byte below 128, which is its code. -/
theorem mem_of_mem_utf8EncodeChar {c : Char} {b : UInt8} (hb : b.toNat < 128)
    (h : b ∈ String.utf8EncodeChar c) : c.toNat = b.toNat := by
  change c.val.toNat = b.toNat
  unfold String.utf8EncodeChar at h
  generalize c.val.toNat = n at h
  simp only at h
  split_ifs at h with h1 h2 h3
  all_goals
    simp only [List.mem_cons, List.not_mem_nil, or_false, ← UInt8.toNat_inj, UInt8.toNat_ofNat'] at h
    omega

theorem mem_of_mem_utf8 {cs : List Char} {b : UInt8} (hb : b.toNat < 128) (h : b ∈ utf8 cs) :
    ∃ c ∈ cs, c.toNat = b.toNat := by
  obtain ⟨c, hc, hbyte⟩ := List.mem_flatMap.1 h
  exact ⟨c, hc, mem_of_mem_utf8EncodeChar hb hbyte⟩

/-- Bytes below 128 are the codes of their characters. -/
theorem map_utf8 {cs : List Char} (h : ∀ b ∈ utf8 cs, b.toNat < 128) :
    (utf8 cs).map (fun b => Char.ofNat b.toNat) = cs := by
  induction cs with
  | nil => rfl
  | cons c cs ih =>
    rw [utf8_cons] at h ⊢
    have hcode : ∀ b ∈ String.utf8EncodeChar c, c.toNat = b.toNat := fun b hb =>
      mem_of_mem_utf8EncodeChar (h b (List.mem_append_left _ hb)) hb
    have hlength := String.length_utf8EncodeChar c
    have hpos : 0 < c.utf8Size := c.utf8Size_pos
    obtain ⟨b, bs, hbytes⟩ : ∃ b bs, String.utf8EncodeChar c = b :: bs :=
      List.exists_cons_of_length_pos (by omega)
    -- a byte below 128 stands for itself
    have hsmall : c.toNat < 128 := by
      rw [hcode b (by simp [hbytes])]
      exact h b (by simp [hbytes])
    have hsize : c.utf8Size = 1 := by
      rw [Char.utf8Size, if_pos]
      show c.val.toNat ≤ _
      change c.val.toNat < 128 at hsmall
      exact Nat.le_of_lt_succ hsmall
    -- such a character is one byte
    have hone : String.utf8EncodeChar c = [b] := by
      rw [hbytes, List.length_cons, hsize] at hlength
      rw [hbytes, List.length_eq_zero_iff.1 (by omega : bs.length = 0)]
    rw [hone, List.map_append, ih fun b hb => h b (List.mem_append_right _ hb), List.map_singleton,
      ← hcode b (by simp [hone]), Char.ofNat_toNat]
    rfl

end AgentHub.Json
