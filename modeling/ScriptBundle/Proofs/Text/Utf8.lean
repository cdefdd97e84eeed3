import ScriptBundle.Text.Utf8

/-!
# The bytes of a text

A text is the UTF-8 of its characters one after the other.  Characters of seven
bits are single bytes; in all others every byte has its highest bit set.
-/

namespace ScriptBundle.Text.Utf8

/-- The bytes of characters. -/
def encode (chars : List Char) : Bytes :=
  chars.flatMap String.utf8EncodeChar

@[simp]
theorem encode_nil : encode [] = [] := rfl

theorem encode_cons (char : Char) (chars : List Char) :
    encode (char :: chars) = String.utf8EncodeChar char ++ encode chars :=
  List.flatMap_cons

theorem encode_append (front back : List Char) :
    encode (front ++ back) = encode front ++ encode back :=
  List.flatMap_append

private theorem loop_eq (bytes : ByteArray) (start : Nat) (done : List UInt8) :
    ByteArray.toList.loop bytes start done = done.reverse ++ bytes.data.toList.drop start := by
  fun_induction ByteArray.toList.loop bytes start done with
  | case1 start done hstart ih =>
      have hlength : start < bytes.data.toList.length := hstart
      rw [ih, List.reverse_cons, List.append_assoc, List.singleton_append,
        ← List.getElem_cons_drop hlength]
      congr 2
      exact getElem!_pos bytes.data start hstart
  | case2 start done hstart =>
      have hlength : bytes.data.toList.length ≤ start := Nat.le_of_not_lt hstart
      rw [List.drop_eq_nil_of_le hlength, List.append_nil]

theorem toList_eq_data (bytes : ByteArray) : bytes.toList = bytes.data.toList :=
  loop_eq bytes 0 []

theorem toUTF8_toList (text : String) : text.toUTF8.toList = encode text.toList := by
  rw [toList_eq_data, String.toUTF8_eq_toByteArray, ← String.utf8Encode_toList, List.utf8Encode]
  exact List.toList_data_toByteArray

theorem decode?_encode (text : String) : decode? (encode text.toList) = some text := by
  have hbytes : ByteArray.mk (encode text.toList).toArray = text.toByteArray := by
    rw [← toUTF8_toList, toList_eq_data]
    rfl
  rw [decode?, hbytes, String.fromUTF8?, dif_pos text.isValidUTF8]
  rfl

theorem utf8EncodeChar_of_lt {char : Char} (hchar : char.toNat < 128) :
    String.utf8EncodeChar char = [UInt8.ofNat char.toNat] :=
  if_pos (Nat.le_of_lt_succ hchar)

theorem ofNat_toNat_of_lt {char : Char} (hchar : char.toNat < 128) :
    Char.ofNat (UInt8.ofNat char.toNat).toNat = char := by
  rw [UInt8.toNat_ofNat_of_lt' (Nat.lt_trans hchar (by decide))]
  exact Char.ofNat_toNat char

/-- The bytes of a character beyond seven bits stand for nothing on their own. -/
theorem le_of_mem_utf8EncodeChar {char : Char} (hchar : 128 ≤ char.toNat) {byte : UInt8}
    (hbyte : byte ∈ String.utf8EncodeChar char) : 0x80 ≤ byte := by
  have hsum : ∀ value width low : Nat, 128 ≤ low → low + width ≤ 256 → 0 < width →
      (0x80 : UInt8) ≤ UInt8.ofNat (value % width + low) := by
    intro value width low hlow hhigh hwidth
    have hvalue := Nat.mod_lt value hwidth
    have hbyte : value % width + low < UInt8.size := by
      change _ < 256
      omega
    rw [UInt8.le_iff_toNat_le, UInt8.toNat_ofNat_of_lt' hbyte]
    change 128 ≤ _
    omega
  have hnot : ¬ char.val.toNat ≤ 0x7f := Nat.not_le_of_lt hchar
  unfold String.utf8EncodeChar at hbyte
  simp only at hbyte
  rw [if_neg hnot] at hbyte
  split at hbyte
  · simp only [List.mem_cons, List.not_mem_nil, or_false] at hbyte
    rcases hbyte with rfl | rfl <;> exact hsum _ _ _ (by decide) (by decide) (by decide)
  · split at hbyte
    · simp only [List.mem_cons, List.not_mem_nil, or_false] at hbyte
      rcases hbyte with rfl | rfl | rfl <;> exact hsum _ _ _ (by decide) (by decide) (by decide)
    · simp only [List.mem_cons, List.not_mem_nil, or_false] at hbyte
      rcases hbyte with rfl | rfl | rfl | rfl <;>
        exact hsum _ _ _ (by decide) (by decide) (by decide)

end ScriptBundle.Text.Utf8
