/-
Module: TextEditing.Proofs.ByteOrder
Purpose: Texts are in the same order by their characters as by their bytes.
Main exports: OffsetUnit.encodeChar_utf8_cases, OffsetUnit.encodeChar_utf8_append_lt,
  OffsetUnit.encode_utf8_lt_iff, OffsetUnit.encode_utf8_toList_lt_iff
-/
import TextEditing.Text.Encoded

namespace TextEditing

/-!
A character is one byte, or a first byte that tells how many follow it, and then six bits in each of
these.  First bytes of longer characters are greater, and characters of one length are compared from
their highest bits to their lowest.  Hence two different characters differ at a byte that both of
them have, and whatever comes behind them no longer matters.

This is a property of bytes: a character past the first 65536 begins with a surrogate, which is
smaller than the last of those.
-/

namespace OffsetUnit

/-- The bytes of a character by its number. -/
theorem encodeChar_utf8_cases (c : Char) :
    (c.toNat < 0x80 ∧ utf8.encodeChar c = [c.toNat]) ∨
      (0x80 ≤ c.toNat ∧ c.toNat < 0x800 ∧
        utf8.encodeChar c = [c.toNat / 64 + 0xC0, c.toNat % 64 + 0x80]) ∨
      (0x800 ≤ c.toNat ∧ c.toNat < 0x10000 ∧
        utf8.encodeChar c =
          [c.toNat / 4096 + 0xE0, c.toNat / 64 % 64 + 0x80, c.toNat % 64 + 0x80]) ∨
      (0x10000 ≤ c.toNat ∧ c.toNat < 0x110000 ∧
        utf8.encodeChar c =
          [c.toNat / 262144 + 0xF0, c.toNat / 4096 % 64 + 0x80, c.toNat / 64 % 64 + 0x80,
            c.toNat % 64 + 0x80]) := by
  have hvalid : c.toNat < 0xD800 ∨ 0xDFFF < c.toNat ∧ c.toNat < 0x110000 := c.valid
  have hbyte (n : Nat) : (UInt8.ofNat n).toNat = n % 256 := UInt8.toNat_ofNat'
  simp only [encodeChar, String.utf8EncodeChar, Char.toNat_val]
  by_cases hone : c.toNat ≤ 127
  · left
    simp only [if_pos hone, List.map_cons, List.map_nil, hbyte, List.cons.injEq, and_true]
    omega
  · right
    rw [if_neg hone]
    by_cases htwo : c.toNat ≤ 2047
    · left
      simp only [if_pos htwo, List.map_cons, List.map_nil, hbyte, List.cons.injEq, and_true]
      omega
    · right
      rw [if_neg htwo]
      by_cases hthree : c.toNat ≤ 65535
      · left
        simp only [if_pos hthree, List.map_cons, List.map_nil, hbyte, List.cons.injEq, and_true]
        omega
      · right
        simp only [if_neg hthree, List.map_cons, List.map_nil, hbyte, List.cons.injEq, and_true]
        omega

/-- Of two characters the smaller one has the smaller byte where their bytes first differ. -/
theorem encodeChar_utf8_append_lt {c d : Char} (h : c < d) (s t : List Nat) :
    utf8.encodeChar c ++ s < utf8.encodeChar d ++ t := by
  have hlt : c.toNat < d.toNat := h
  -- A greater character has at least as many bytes, which leaves ten of the sixteen cases.
  rcases encodeChar_utf8_cases c with ⟨_, hc⟩ | ⟨_, _, hc⟩ | ⟨_, _, hc⟩ | ⟨_, _, hc⟩ <;>
    rcases encodeChar_utf8_cases d with ⟨_, hd⟩ | ⟨_, _, hd⟩ | ⟨_, _, hd⟩ | ⟨_, _, hd⟩ <;>
      simp only [hc, hd, List.cons_append, List.nil_append, List.cons_lt_cons_iff] <;> omega

variable {s t : List Char}

theorem encode_utf8_lt_of_lt (h : s < t) : utf8.encode s < utf8.encode t := by
  induction s generalizing t with
  | nil =>
      cases t with
      | nil => exact absurd h (List.not_lt_nil [])
      | cons d rest =>
          obtain ⟨byte, bytes, hbytes⟩ := List.exists_cons_of_ne_nil (utf8.encodeChar_ne_nil d)
          rw [encode_nil, encode_cons, hbytes, List.cons_append]
          exact List.nil_lt_cons byte _
  | cons c rest ih =>
      cases t with
      | nil => exact absurd h (List.not_lt_nil _)
      | cons d others =>
          rw [encode_cons, encode_cons]
          rcases List.cons_lt_cons_iff.1 h with hlt | ⟨rfl, hrest⟩
          · exact encodeChar_utf8_append_lt hlt _ _
          · exact List.append_left_lt (ih hrest)

/-- Lists of characters are in the order of their bytes. -/
theorem encode_utf8_lt_iff : utf8.encode s < utf8.encode t ↔ s < t := by
  constructor
  · intro h
    by_cases hlt : s < t
    · exact hlt
    · rcases List.le_iff_lt_or_eq.1 (List.not_lt.1 hlt) with hback | rfl
      · exact absurd h (List.lt_asymm (encode_utf8_lt_of_lt hback))
      · exact absurd h (List.lt_irrefl _)
  · exact encode_utf8_lt_of_lt

/-- Texts are in the order of their bytes. -/
theorem encode_utf8_toList_lt_iff {a b : String} :
    utf8.encode a.toList < utf8.encode b.toList ↔ a < b :=
  encode_utf8_lt_iff.trans String.lt_iff.symm

/-- The surrogates of a character past the first 65536 are smaller than the last of those. -/
example :
    utf8.encode ['\uffff'] < utf8.encode ['😀'] ∧
      utf16.encode ['😀'] < utf16.encode ['\uffff'] := by
  decide

end OffsetUnit

end TextEditing
