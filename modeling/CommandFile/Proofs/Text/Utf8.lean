import CommandFile.Text.Utf8
set_option autoImplicit false

/-!
Characters that are written as octets are read back, one after another. No character is a surrogate
or lies beyond the last code point, and none is written longer than needed, so that every octet
falls into the range in which the one before it lets it fall.
-/
namespace CommandFile.Text.Utf8

section Steps
variable {position : Nat} {text : List Char} {octet : UInt8} {rest : List UInt8} {b : Begun}
  {n owed : Nat}

theorem decodeFrom_single (h : n < 0x80) :
    decodeFrom position text none (.ofNat n :: rest) =
      decodeFrom (position + 1) (Char.ofNat n :: text) none rest := by
  have hoctet : (UInt8.ofNat n).toNat = n :=
    UInt8.toNat_ofNat_of_lt' (show n < 256 by omega)
  simp only [decodeFrom, hoctet, if_pos h]

theorem decodeFrom_begin (h : begin? octet = some b) :
    decodeFrom position text none (octet :: rest) =
      decodeFrom (position + 1) text (some b) rest := by
  have hlong : ¬ octet.toNat < 0x80 := by
    intro hshort
    have hfirst : octet.toNat < 0xC2 := by omega
    simp [begin?, hfirst] at h
  simp only [decodeFrom, if_neg hlong, h]

theorem decodeFrom_continue (hn : n < 64) (hlower : b.lower ≤ 0x80 + n)
    (hupper : 0x80 + n ≤ b.upper) (howed : b.owed = owed + 1) :
    decodeFrom position text (some b) (.ofNat (0x80 + n) :: rest) =
      decodeFrom (position + 1) text
        (some ⟨b.value * 64 + n, 0x80, 0xBF, owed, .ofNat (0x80 + n) :: b.octets⟩) rest := by
  have hoctet : (UInt8.ofNat (0x80 + n)).toNat = 0x80 + n :=
    UInt8.toNat_ofNat_of_lt' (show 0x80 + n < 256 by omega)
  simp only [decodeFrom, hoctet, if_pos (And.intro hlower hupper), howed, Nat.add_sub_cancel_left]

theorem decodeFrom_complete (hn : n < 64) (hlower : b.lower ≤ 0x80 + n)
    (hupper : 0x80 + n ≤ b.upper) (howed : b.owed = 0) :
    decodeFrom position text (some b) (.ofNat (0x80 + n) :: rest) =
      decodeFrom (position + 1) (Char.ofNat (b.value * 64 + n) :: text) none rest := by
  have hoctet : (UInt8.ofNat (0x80 + n)).toNat = 0x80 + n :=
    UInt8.toNat_ofNat_of_lt' (show 0x80 + n < 256 by omega)
  simp only [decodeFrom, hoctet, if_pos (And.intro hlower hupper), howed, Nat.add_sub_cancel_left]

theorem begin?_two (hlower : 2 ≤ n) (hupper : n < 32) :
    begin? (.ofNat (0xC0 + n)) = some ⟨n, 0x80, 0xBF, 0, [.ofNat (0xC0 + n)]⟩ := by
  have hoctet : (UInt8.ofNat (0xC0 + n)).toNat = 0xC0 + n :=
    UInt8.toNat_ofNat_of_lt' (show 0xC0 + n < 256 by omega)
  simp only [begin?, hoctet, Nat.add_sub_cancel_left]
  rw [if_neg (by omega), if_pos (by omega)]

theorem begin?_three (h : n < 16) :
    begin? (.ofNat (0xE0 + n)) = some ⟨n, if n = 0 then 0xA0 else 0x80,
      if n = 13 then 0x9F else 0xBF, 1, [.ofNat (0xE0 + n)]⟩ := by
  have hoctet : (UInt8.ofNat (0xE0 + n)).toNat = 0xE0 + n :=
    UInt8.toNat_ofNat_of_lt' (show 0xE0 + n < 256 by omega)
  have hlast : 0xE0 + n = 0xED ↔ n = 13 := by omega
  simp only [begin?, hoctet, Nat.add_sub_cancel_left, Nat.add_eq_left, hlast]
  rw [if_neg (by omega), if_neg (by omega), if_pos (by omega)]

theorem begin?_four (h : n < 5) :
    begin? (.ofNat (0xF0 + n)) = some ⟨n, if n = 0 then 0x90 else 0x80,
      if n = 4 then 0x8F else 0xBF, 2, [.ofNat (0xF0 + n)]⟩ := by
  have hoctet : (UInt8.ofNat (0xF0 + n)).toNat = 0xF0 + n :=
    UInt8.toNat_ofNat_of_lt' (show 0xF0 + n < 256 by omega)
  have hlast : 0xF0 + n = 0xF4 ↔ n = 4 := by omega
  simp only [begin?, hoctet, Nat.add_sub_cancel_left, Nat.add_eq_left, hlast]
  rw [if_neg (by omega), if_neg (by omega), if_neg (by omega), if_pos (by omega)]

end Steps

theorem decodeFrom_encodeChar (position : Nat) (text : List Char) (c : Char) (rest : List UInt8) :
    decodeFrom position text none (encodeChar c ++ rest) =
      decodeFrom (position + (encodeChar c).length) (c :: text) none rest := by
  have hvalid : c.toNat < 0xD800 ∨ 0xDFFF < c.toNat ∧ c.toNat < 0x110000 := c.valid
  have hback : Char.ofNat c.toNat = c := Char.ofNat_toNat c
  generalize hn : c.toNat = n at hvalid hback
  simp only [encodeChar, hn]
  -- One case for each length, in which the six bits of every octet add up to the code point.
  by_cases h1 : n < 0x80
  · simp only [if_pos h1, List.cons_append, List.nil_append]
    rw [decodeFrom_single h1, hback]
    rfl
  by_cases h2 : n < 0x800
  · have hvalue : n / 64 * 64 + n % 64 = n := by omega
    simp only [if_neg h1, if_pos h2, List.cons_append, List.nil_append]
    rw [decodeFrom_begin (begin?_two (by omega) (by omega)),
      decodeFrom_complete (by omega) (by simp) (by simp; omega) rfl]
    simp only [hvalue, hback]
    rfl
  by_cases h3 : n < 0x10000
  · have hvalue : (n / 4096 * 64 + n / 64 % 64) * 64 + n % 64 = n := by omega
    simp only [if_neg h1, if_neg h2, if_pos h3, List.cons_append, List.nil_append]
    rw [decodeFrom_begin (begin?_three (by omega)),
      decodeFrom_continue (by omega) (by simp only; split <;> omega)
        (by simp only; split <;> omega) rfl,
      decodeFrom_complete (by omega) (by simp) (by simp; omega) rfl]
    simp only [hvalue, hback]
    rfl
  · have hvalue : ((n / 262144 * 64 + n / 4096 % 64) * 64 + n / 64 % 64) * 64 + n % 64 = n := by
      omega
    simp only [if_neg h1, if_neg h2, if_neg h3, List.cons_append, List.nil_append]
    rw [decodeFrom_begin (begin?_four (by omega)),
      decodeFrom_continue (by omega) (by simp only; split <;> omega)
        (by simp only; split <;> omega) rfl,
      decodeFrom_continue (by omega) (by simp) (by simp; omega) rfl,
      decodeFrom_complete (by omega) (by simp) (by simp; omega) rfl]
    simp only [hvalue, hback]
    rfl

theorem decodeFrom_encode (position : Nat) (text cs : List Char) :
    decodeFrom position text none (encode cs) = .ok ⟨text.reverse ++ cs, none⟩ := by
  induction cs generalizing position text with
  | nil => simp [decodeFrom]
  | cons c cs ih =>
    rw [encode_cons, decodeFrom_encodeChar, ih]
    simp

theorem decode_encode (cs : List Char) : decode (encode cs) = .ok ⟨cs, none⟩ :=
  decodeFrom_encode 0 [] cs

end CommandFile.Text.Utf8
