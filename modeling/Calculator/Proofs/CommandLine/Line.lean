import Mathlib.Data.List.DropRight
import Mathlib.Data.List.TakeWhile
import Calculator.CommandLine.Report

/-!
# A text as a line of input

The byte of the newline stands in the UTF-8 of no other character. So a text without newlines
that is typed as a line, followed by anything or by nothing, **is what the first line of the
input reads as**, except that the carriage returns at its end are taken for a part of the line
end. Those are blanks.
-/

namespace Calculator

/-- The input is the line, or a newline comes behind the line and then anything. -/
def BeginsWithLine (input : ByteArray) (line : String) : Prop :=
  input = line.toUTF8 ∨ ∃ rest, input = line.toUTF8 ++ "\n".toUTF8 ++ rest

/-- **Only the newline is written with its byte.** -/
theorem eq_newline_of_mem_utf8EncodeChar {c : Char} (h : 10 ∈ String.utf8EncodeChar c) :
    c = '\n' := by
  have hbyte (n : Nat) : 10 = UInt8.ofNat n ↔ n % 256 = 10 := by
    rw [← UInt8.toNat_inj, UInt8.toNat_ofNat']
    exact eq_comm
  unfold String.utf8EncodeChar at h
  dsimp only at h
  split at h
  · rw [List.mem_singleton, hbyte] at h
    refine Char.ext (UInt32.toNat_inj.mp ?_)
    change c.val.toNat = 10
    omega
  · -- each byte of a longer form is at least 128
    split at h
    · simp only [List.mem_cons, List.not_mem_nil, or_false, hbyte] at h
      omega
    · split at h <;> simp only [List.mem_cons, List.not_mem_nil, or_false, hbyte] at h <;> omega

theorem newline_notMem_bytes {line : String} (h : '\n' ∉ line.toList) :
    10 ∉ line.toUTF8.data.toList := by
  intro hmem
  rw [toList_toUTF8, List.mem_flatMap] at hmem
  obtain ⟨c, hc, hbyte⟩ := hmem
  exact h (eq_newline_of_mem_utf8EncodeChar hbyte ▸ hc)

/-- The bytes of a text read as the text. -/
theorem fromUTF8?_toUTF8 (text : String) :
    String.fromUTF8? ⟨text.toUTF8.data.toList.toArray⟩ = some text := by
  rw [Array.toArray_toList, String.toUTF8_eq_toByteArray, String.fromUTF8?,
    dif_pos text.isValidUTF8]
  rfl

theorem takeWhile_of_beginsWithLine {input : ByteArray} {line : String}
    (h : BeginsWithLine input line) (hline : '\n' ∉ line.toList) :
    input.data.toList.takeWhile (fun byte => byte != 10) = line.toUTF8.data.toList := by
  have hbytes : ∀ b ∈ line.toUTF8.data.toList, (b != 10) = true := fun b hb =>
    bne_iff_ne.mpr fun hten => newline_notMem_bytes hline (hten ▸ hb)
  rcases h with rfl | ⟨rest, rfl⟩
  · exact List.takeWhile_eq_self_iff.mpr hbytes
  · rw [ByteArray.data_append, ByteArray.data_append, Array.toList_append, Array.toList_append,
      List.append_assoc, List.takeWhile_append_of_pos hbytes]
    exact (congrArg _ (List.takeWhile_cons_of_neg (by decide))).trans (List.append_nil _)

/-- The character is taken off the end of a line. -/
def endsLine (c : Char) : Bool := c == '\r' || c == '\n'

theorem isBlank_of_endsLine {c : Char} (h : endsLine c) : isBlank c := by
  rw [endsLine, Bool.or_eq_true, beq_iff_eq, beq_iff_eq] at h
  rcases h with rfl | rfl <;> rfl

/-- **The first line of the input is the line**, less some blanks at its end. -/
theorem firstLine?_of_beginsWithLine {input : ByteArray} {line : String}
    (h : BeginsWithLine input line) (hline : '\n' ∉ line.toList) :
    ∃ text blanks, line = text ++ blanks ∧ (∀ c ∈ blanks.toList, isBlank c)
      ∧ Report.firstLine? input = some text := by
  refine ⟨String.ofList (line.toList.rdropWhile endsLine),
    String.ofList (line.toList.rtakeWhile endsLine), ?_, ?_, ?_⟩
  · rw [← String.ofList_append, List.rdropWhile_append_rtakeWhile, String.ofList_toList]
  · intro c hc
    rw [String.toList_ofList] at hc
    exact isBlank_of_endsLine (List.mem_rtakeWhile_imp hc)
  · rw [Report.firstLine?, takeWhile_of_beginsWithLine h hline, fromUTF8?_toUTF8]
    rfl

end Calculator
