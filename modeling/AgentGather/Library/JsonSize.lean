import AgentGather.Library.JsonIndent
import AgentGather.Library.Utf8

/-!
# Sizes of texts

How many bytes a text has on disk, and the bounds of it for what the printer writes: each
UTF-16 code unit of a string takes at most six bytes of its literal.
-/

namespace AgentGather.Library

/-! ## Bytes -/

namespace Utf8

/-- The length of a text in bytes. -/
def byteLength (s : List Char) : Nat := (encode s).length

@[simp] theorem byteLength_nil : byteLength [] = 0 := rfl

theorem byteLength_append (s t : List Char) :
    byteLength (s ++ t) = byteLength s + byteLength t := by
  rw [byteLength, encode, List.flatMap_append, List.length_append]
  rfl

theorem byteLength_cons (c : Char) (s : List Char) :
    byteLength (c :: s) = (encodeChar c).length + byteLength s := by
  rw [byteLength, encode, List.flatMap_cons, List.length_append]
  rfl

theorem length_encodeChar_of_ascii {c : Char} (h : c.toNat < 0x80) :
    (encodeChar c).length = 1 := by
  rw [encodeChar, if_pos h, List.length_singleton]

/-- A text in ASCII. -/
theorem byteLength_of_ascii {s : List Char} (h : ∀ c ∈ s, c.toNat < 0x80) :
    byteLength s = s.length := by
  induction s with
  | nil => rfl
  | cons c s ih =>
      rw [byteLength_cons, length_encodeChar_of_ascii (h c List.mem_cons_self),
        ih fun d hd => h d (List.mem_cons_of_mem _ hd), List.length_cons, Nat.add_comm]

theorem length_encodeChar_le (c : Char) : (encodeChar c).length ≤ 3 * Text.codeUnits c := by
  rw [encodeChar, Text.codeUnits]
  split_ifs <;> simp

end Utf8

/-! ## What the printer writes -/

namespace Json

open Utf8

theorem byteLength_quoteChar_le (c : Char) :
    byteLength (quoteChar c) ≤ 6 * Text.codeUnits c := by
  have hpos := Text.codeUnits_pos c
  have hescape (d : Char) (h : d.toNat < 0x80) : byteLength ['\\', d] ≤ 6 * Text.codeUnits c := by
    rw [byteLength_cons, byteLength_cons, length_encodeChar_of_ascii h]
    exact (show 2 ≤ 6 by decide).trans (Nat.le_mul_of_pos_right 6 hpos)
  have hunicode : ∀ n < 0x20,
      byteLength ['\\', 'u', '0', '0', hexDigit (n / 16), hexDigit (n % 16)] = 6 := by decide
  unfold quoteChar
  split_ifs with _ _ _ _ _ _ _ hcontrol
  iterate 7 exact hescape _ (by decide)
  · rw [hunicode _ hcontrol]
    exact Nat.le_mul_of_pos_right 6 hpos
  · have hle := length_encodeChar_le c
    rw [byteLength_cons, byteLength_nil]
    omega

/-- A string literal. -/
theorem byteLength_printString_le (s : String) :
    byteLength (printString s) ≤ 6 * Text.utf16Length s.toList + 2 := by
  have hbody (t : List Char) : byteLength (t.flatMap quoteChar) ≤ 6 * Text.utf16Length t := by
    induction t with
    | nil => exact Nat.zero_le _
    | cons c t ih =>
        have hc := byteLength_quoteChar_le c
        rw [List.flatMap_cons, byteLength_append, Text.utf16Length_cons]
        omega
  have hquote : (encodeChar '"').length = 1 := rfl
  have hs := hbody s.toList
  rw [printString, byteLength_cons, byteLength_append, byteLength_cons, byteLength_nil]
  omega

/-- A number of at most `k` digits. -/
theorem byteLength_printInt_le {n : Int} {k : Nat} (hk : 0 < k) (h : n.natAbs < 10 ^ k) :
    byteLength (printInt n) ≤ k + 1 := by
  have hascii (m : Nat) : byteLength (Nat.toDigits 10 m) = (Nat.toDigits 10 m).length := by
    apply byteLength_of_ascii
    intro c hc
    have hdigit := Nat.isDigit_of_mem_toDigits (by decide) (by decide) hc
    simp only [Char.isDigit, Bool.and_eq_true, decide_eq_true_eq] at hdigit
    exact Nat.lt_of_le_of_lt (UInt32.le_iff_toNat_le.mp hdigit.2) (by decide)
  have hlength {m : Nat} (hm : m < 10 ^ k) : (Nat.toDigits 10 m).length ≤ k :=
    (Nat.length_toDigits_le_iff (by decide) hk).mpr hm
  cases n with
  | ofNat m =>
      have := hlength (m := m) h
      rw [printInt, hascii]
      omega
  | negSucc m =>
      have := hlength (m := m + 1) h
      have hsign : (encodeChar '-').length = 1 := rfl
      rw [printInt, byteLength_cons, hascii]
      omega

/-! ## Objects and arrays -/

theorem byteLength_newLine (depth : Nat) : byteLength (newLine depth) = 2 * depth + 1 := by
  have hspaces : byteLength (List.replicate (2 * depth) ' ') = 2 * depth := by
    rw [byteLength_of_ascii, List.length_replicate]
    intro c hc
    rw [List.eq_of_mem_replicate hc]
    decide
  have hline : (encodeChar '\n').length = 1 := rfl
  rw [newLine, byteLength_cons, hspaces, hline, Nat.add_comm]

/-- A value at a depth. -/
def indentedBytes (depth : Nat) (value : Json) : Nat := byteLength (printIndented depth value)

/-- A member with the line it stands on, and what is before it. -/
def memberBytes (depth : Nat) (member : String × Json) : Nat :=
  2 * depth + byteLength (printString member.1) + indentedBytes depth member.2 + 4

theorem byteLength_printIndentedFields (depth : Nat) (fields : List (String × Json)) :
    byteLength (printIndentedFields depth fields) =
      (fields.map (memberBytes (depth + 1))).sum + 2 * depth + 2 := by
  induction fields with
  | nil =>
      have hbrace : byteLength ['\x7d'] = 1 := rfl
      rw [printIndentedFields, byteLength_append, byteLength_newLine, hbrace, List.map_nil,
        List.sum_nil, Nat.zero_add]
  | cons field fields ih =>
      obtain ⟨name, value⟩ := field
      have hascii : (encodeChar ',').length = 1 ∧ (encodeChar ':').length = 1 ∧
        (encodeChar ' ').length = 1 := ⟨rfl, rfl, rfl⟩
      simp only [printIndentedFields, byteLength_cons, byteLength_append, byteLength_newLine, ih,
        hascii, List.map_cons, List.sum_cons, memberBytes, indentedBytes]
      omega

/-- An object with members. -/
theorem indentedBytes_obj (depth : Nat) (field : String × Json)
    (fields : List (String × Json)) :
    indentedBytes depth (obj (field :: fields)) =
      ((field :: fields).map (memberBytes (depth + 1))).sum + 2 * depth + 2 := by
  have hfields := byteLength_printIndentedFields depth (field :: fields)
  rw [printIndentedFields, byteLength_cons] at hfields
  rw [indentedBytes, printIndented, byteLength_cons, ← hfields]
  rfl

theorem byteLength_printIndentedItems (depth : Nat) (items : List Json) :
    byteLength (printIndentedItems depth items) =
      (items.map fun item => 2 * (depth + 1) + indentedBytes (depth + 1) item + 2).sum +
        2 * depth + 2 := by
  induction items with
  | nil =>
      have hbracket : byteLength [']'] = 1 := rfl
      rw [printIndentedItems, byteLength_append, byteLength_newLine, hbracket, List.map_nil,
        List.sum_nil, Nat.zero_add]
  | cons item items ih =>
      have hcomma : (encodeChar ',').length = 1 := rfl
      simp only [printIndentedItems, byteLength_cons, byteLength_append, byteLength_newLine, ih,
        hcomma, List.map_cons, List.sum_cons, indentedBytes]
      omega

/-- An array with items. -/
theorem indentedBytes_arr (depth : Nat) (item : Json) (items : List Json) :
    indentedBytes depth (arr (item :: items)) =
      ((item :: items).map fun item =>
        2 * (depth + 1) + indentedBytes (depth + 1) item + 2).sum + 2 * depth + 2 := by
  have hitems := byteLength_printIndentedItems depth (item :: items)
  rw [printIndentedItems, byteLength_cons] at hitems
  rw [indentedBytes, printIndented, byteLength_cons, ← hitems]
  rfl

theorem indentedBytes_arr_nil (depth : Nat) : indentedBytes depth (arr []) = 2 := by
  rw [indentedBytes, printIndented]
  rfl

theorem indentedBytes_str (depth : Nat) (s : String) :
    indentedBytes depth (str s) = byteLength (printString s) := by
  rw [indentedBytes, printIndented, print]

theorem indentedBytes_num (depth : Nat) (n : Int) :
    indentedBytes depth (num n) = byteLength (printInt n) := by
  rw [indentedBytes, printIndented, print]

end Json

end AgentGather.Library
