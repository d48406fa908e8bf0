/-!
# Lengths in bytes

Positions in a source count the bytes of its UTF-8 form, in which a character takes
one to four of them.
-/

namespace Calculator

/-- How many bytes the characters take. -/
def byteSize (chars : List Char) : Nat := chars.foldr (fun c size => c.utf8Size + size) 0

@[simp] theorem byteSize_nil : byteSize [] = 0 := rfl

@[simp] theorem byteSize_cons (c : Char) (chars : List Char) :
    byteSize (c :: chars) = c.utf8Size + byteSize chars := rfl

@[simp] theorem byteSize_append (front back : List Char) :
    byteSize (front ++ back) = byteSize front + byteSize back := by
  induction front with
  | nil => simp
  | cons c front ih => simp [ih, Nat.add_assoc]

theorem length_le_byteSize (chars : List Char) : chars.length ≤ byteSize chars := by
  induction chars with
  | nil => simp
  | cons c chars ih =>
      have := c.utf8Size_pos
      simp
      omega

/-- Counted in core's way, a text is as long. -/
theorem byteSize_toList (s : String) : byteSize s.toList = s.utf8ByteSize := by
  have h : ∀ chars : List Char, byteSize chars = (String.ofList chars).utf8ByteSize := by
    intro chars
    induction chars with
    | nil => simp
    | cons c chars ih =>
        rw [byteSize_cons, ih, ← List.singleton_append, String.ofList_append,
          String.utf8ByteSize_append]
        simp
  rw [h, String.ofList_toList]

/-- The bytes of a text are those of its characters, one after the other. -/
theorem toList_toUTF8 (s : String) :
    s.toUTF8.data.toList = s.toList.flatMap String.utf8EncodeChar := by
  rw [String.toUTF8_eq_toByteArray, ← String.utf8Encode_toList, List.utf8Encode,
    List.data_toByteArray]

end Calculator
