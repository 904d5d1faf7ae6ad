import Mathlib.Tactic.Common

/-!
# UTF-8 with replacement

The encoder, and the decoder of the WHATWG Encoding Standard, which replaces what it
cannot read by U+FFFD.  Bytes are natural numbers.  The results say what the decoder
makes of an encoded text, also when it was cut short in the middle of a character and
when other text was written behind the cut.
-/

namespace AgentGather.Library.Utf8

/-- The bytes of one character. -/
def encodeChar (c : Char) : List Nat :=
  let n := c.toNat
  if n < 0x80 then [n]
  else if n < 0x800 then [0xc0 + n / 0x40, 0x80 + n % 0x40]
  else if n < 0x10000 then [0xe0 + n / 0x1000, 0x80 + n / 0x40 % 0x40, 0x80 + n % 0x40]
  else [0xf0 + n / 0x40000, 0x80 + n / 0x1000 % 0x40, 0x80 + n / 0x40 % 0x40, 0x80 + n % 0x40]

def encode (s : List Char) : List Nat := s.flatMap encodeChar

/-- The decoder between two bytes: how many continuation bytes are missing, the bounds
of the next one, and the bits read so far. -/
structure Decoder where
  needed : Nat
  lower : Nat
  upper : Nat
  bits : Nat

namespace Decoder

def start : Decoder := ⟨0, 0x80, 0xbf, 0⟩

/-- A byte where a character begins. -/
def lead (b : Nat) : List Char × Decoder :=
  if b < 0x80 then ([Char.ofNat b], start)
  else if 0xc2 ≤ b ∧ b ≤ 0xdf then ([], ⟨1, 0x80, 0xbf, b - 0xc0⟩)
  else if 0xe0 ≤ b ∧ b ≤ 0xef then
    ([], ⟨2, if b = 0xe0 then 0xa0 else 0x80, if b = 0xed then 0x9f else 0xbf, b - 0xe0⟩)
  else if 0xf0 ≤ b ∧ b ≤ 0xf4 then
    ([], ⟨3, if b = 0xf0 then 0x90 else 0x80, if b = 0xf4 then 0x8f else 0xbf, b - 0xf0⟩)
  else (['\ufffd'], start)

/-- One byte: the characters it completes, and what comes next. -/
def feed (d : Decoder) (b : Nat) : List Char × Decoder :=
  if d.needed = 0 then lead b
  else if d.lower ≤ b ∧ b ≤ d.upper then
    let bits := d.bits * 0x40 + (b - 0x80)
    if d.needed = 1 then ([Char.ofNat bits], start)
    else ([], ⟨d.needed - 1, 0x80, 0xbf, bits⟩)
  else ('\ufffd' :: (lead b).1, (lead b).2)

/-- The rest of a text. -/
def run (d : Decoder) : List Nat → List Char
  | [] => if d.needed = 0 then [] else ['\ufffd']
  | b :: bs => (d.feed b).1 ++ (d.feed b).2.run bs

end Decoder

def decode (bytes : List Nat) : List Char := Decoder.start.run bytes

open Decoder

theorem run_lead (b : Nat) (bs : List Nat) :
    start.run (b :: bs) = (lead b).1 ++ (lead b).2.run bs := rfl

/-- A continuation byte within its bounds, more of them missing. -/
theorem run_continue {d : Decoder} {b : Nat} {bs : List Nat} (hn : 2 ≤ d.needed)
    (hb : d.lower ≤ b ∧ b ≤ d.upper) :
    d.run (b :: bs) = run ⟨d.needed - 1, 0x80, 0xbf, d.bits * 0x40 + (b - 0x80)⟩ bs := by
  rw [Decoder.run, feed, if_neg (by omega), if_pos hb]
  simp only [if_neg (show d.needed ≠ 1 by omega), List.nil_append]

/-- The last continuation byte. -/
theorem run_finish {d : Decoder} {b : Nat} {bs : List Nat} (hn : d.needed = 1)
    (hb : d.lower ≤ b ∧ b ≤ d.upper) :
    d.run (b :: bs) = Char.ofNat (d.bits * 0x40 + (b - 0x80)) :: start.run bs := by
  rw [Decoder.run, feed, if_neg (by omega), if_pos hb]
  simp only [if_pos hn, List.cons_append, List.nil_append]

/-- An ASCII byte where a continuation byte is missing. -/
theorem run_broken {d : Decoder} {b : Nat} {bs : List Nat} (hn : d.needed ≠ 0)
    (hl : 0x80 ≤ d.lower) (hb : b < 0x80) :
    d.run (b :: bs) = '\ufffd' :: start.run (b :: bs) := by
  rw [Decoder.run, feed, if_neg hn, if_neg (by omega)]
  rfl

/-- The decoder is inside a character. -/
def Inside (d : Decoder) : Prop := d.needed ≠ 0 ∧ 0x80 ≤ d.lower

/-- The bytes of a character decode to it. -/
theorem run_encodeChar (c : Char) (bs : List Nat) :
    start.run (encodeChar c ++ bs) = c :: start.run bs := by
  have hvalid : c.toNat < 0xd800 ∨ 0xdfff < c.toNat ∧ c.toNat < 0x110000 := c.valid
  unfold encodeChar
  simp only
  split_ifs with h₁ h₂ h₃
  · simp only [List.cons_append, List.nil_append]
    rw [run_lead, lead, if_pos h₁, Char.ofNat_toNat]
    rfl
  · simp only [List.cons_append, List.nil_append]
    rw [run_lead, lead, if_neg (by omega), if_pos (by omega), List.nil_append,
      run_finish rfl (by dsimp only; omega)]
    dsimp only
    rw [show (0xc0 + c.toNat / 0x40 - 0xc0) * 0x40 + (0x80 + c.toNat % 0x40 - 0x80) =
      c.toNat by omega, Char.ofNat_toNat]
  · simp only [List.cons_append, List.nil_append]
    rw [run_lead, lead, if_neg (by omega), if_neg (by omega), if_pos (by omega),
      List.nil_append,
      run_continue (by dsimp only; omega) (by dsimp only; split_ifs <;> omega),
      run_finish rfl (by dsimp only; omega)]
    dsimp only
    rw [show ((0xe0 + c.toNat / 0x1000 - 0xe0) * 0x40 +
        (0x80 + c.toNat / 0x40 % 0x40 - 0x80)) * 0x40 + (0x80 + c.toNat % 0x40 - 0x80) =
      c.toNat by omega, Char.ofNat_toNat]
  · simp only [List.cons_append, List.nil_append]
    rw [run_lead, lead, if_neg (by omega), if_neg (by omega), if_neg (by omega),
      if_pos (by omega), List.nil_append,
      run_continue (by dsimp only; omega) (by dsimp only; split_ifs <;> omega),
      run_continue (by dsimp only; omega) (by dsimp only; omega),
      run_finish rfl (by dsimp only; omega)]
    dsimp only
    rw [show (((0xf0 + c.toNat / 0x40000 - 0xf0) * 0x40 +
        (0x80 + c.toNat / 0x1000 % 0x40 - 0x80)) * 0x40 +
        (0x80 + c.toNat / 0x40 % 0x40 - 0x80)) * 0x40 + (0x80 + c.toNat % 0x40 - 0x80) =
      c.toNat by omega, Char.ofNat_toNat]

/-- A text decodes to itself, whatever is written behind it. -/
theorem decode_encode_append (s : List Char) (bs : List Nat) :
    decode (encode s ++ bs) = s ++ decode bs := by
  induction s with
  | nil => rfl
  | cons c s ih =>
      rw [encode, List.flatMap_cons, List.append_assoc, decode, run_encodeChar]
      rw [List.cons_append]
      exact congrArg _ ih

theorem decode_encode (s : List Char) : decode (encode s) = s := by
  have h := decode_encode_append s []
  rwa [List.append_nil, show decode [] = [] from rfl, List.append_nil] at h

/-- A character cut short inside is read as one replacement character, at the end of the
text and before an ASCII character. -/
theorem run_take_encodeChar (c : Char) (k : Nat) (hpos : 0 < k)
    (hlt : k < (encodeChar c).length) (bs : List Nat)
    (hbs : ∀ b, bs.head? = some b → b < 0x80) :
    start.run ((encodeChar c).take k ++ bs) = '\ufffd' :: start.run bs := by
  have hvalid : c.toNat < 0xd800 ∨ 0xdfff < c.toNat ∧ c.toNat < 0x110000 := c.valid
  have hstop (d : Decoder) (hd : Inside d) : d.run bs = '\ufffd' :: start.run bs := by
    cases bs with
    | nil => rw [Decoder.run, if_neg hd.1]; rfl
    | cons b bs => exact run_broken hd.1 hd.2 (hbs b rfl)
  unfold encodeChar at hlt ⊢
  simp only at hlt ⊢
  split_ifs at hlt ⊢ with h₁ h₂ h₃
  · simp only [List.length_cons, List.length_nil] at hlt
    omega
  · obtain rfl : k = 1 := by
      simp only [List.length_cons, List.length_nil] at hlt
      omega
    simp only [List.take_succ_cons, List.take_zero, List.cons_append, List.nil_append]
    rw [run_lead, lead, if_neg (by omega), if_pos (by omega), List.nil_append]
    exact hstop _ ⟨by dsimp only; omega, by dsimp only; omega⟩
  · have hk : k = 1 ∨ k = 2 := by
      simp only [List.length_cons, List.length_nil] at hlt
      omega
    rcases hk with rfl | rfl <;>
      simp only [List.take_succ_cons, List.take_zero, List.cons_append, List.nil_append] <;>
      rw [run_lead, lead, if_neg (by omega), if_neg (by omega), if_pos (by omega),
        List.nil_append]
    · exact hstop _ ⟨by dsimp only; omega, by dsimp only; split_ifs <;> omega⟩
    · rw [run_continue (by dsimp only; omega) (by dsimp only; split_ifs <;> omega)]
      exact hstop _ ⟨by dsimp only; omega, by dsimp only; omega⟩
  · have hk : k = 1 ∨ k = 2 ∨ k = 3 := by
      simp only [List.length_cons, List.length_nil] at hlt
      omega
    rcases hk with rfl | rfl | rfl <;>
      simp only [List.take_succ_cons, List.take_zero, List.cons_append, List.nil_append] <;>
      rw [run_lead, lead, if_neg (by omega), if_neg (by omega), if_neg (by omega),
        if_pos (by omega), List.nil_append]
    · exact hstop _ ⟨by dsimp only; omega, by dsimp only; split_ifs <;> omega⟩
    · rw [run_continue (by dsimp only; omega) (by dsimp only; split_ifs <;> omega)]
      exact hstop _ ⟨by dsimp only; omega, by dsimp only; omega⟩
    · rw [run_continue (by dsimp only; omega) (by dsimp only; split_ifs <;> omega),
        run_continue (by dsimp only; omega) (by dsimp only; omega)]
      exact hstop _ ⟨by dsimp only; omega, by dsimp only; omega⟩

/-- Cutting an encoded text at a byte cuts the text at a character, up to one
replacement character for the character the cut went through. -/
theorem decode_take (s : List Char) (k : Nat) (hlt : k < (encode s).length) :
    ∃ n junk, n < s.length ∧ (junk = [] ∨ junk = ['\ufffd']) ∧
      (∀ c, s.head? = some c → c.toNat < 0x80 → 0 < k → 0 < n) ∧
      ∀ bs : List Nat, (∀ b, bs.head? = some b → b < 0x80) →
        decode ((encode s).take k ++ bs) = s.take n ++ (junk ++ decode bs) := by
  induction s generalizing k with
  | nil => simp [encode] at hlt
  | cons c s ih =>
      have hsplit : encode (c :: s) = encodeChar c ++ encode s := List.flatMap_cons ..
      rw [hsplit, List.length_append] at hlt
      rw [hsplit]
      by_cases hk : k < (encodeChar c).length
      · rw [List.take_append_of_le_length (Nat.le_of_lt hk)]
        by_cases hzero : k = 0
        · subst hzero
          exact ⟨0, [], Nat.succ_pos _, .inl rfl, fun _ _ _ h => h, fun bs _ => rfl⟩
        · refine ⟨0, ['\ufffd'], Nat.succ_pos _, .inr rfl, ?_, fun bs hbs => ?_⟩
          · rintro _ ⟨⟩ hascii -
            rw [encodeChar, if_pos hascii] at hk
            simp only [List.length_cons, List.length_nil] at hk
            omega
          · exact run_take_encodeChar c k (Nat.pos_of_ne_zero hzero) hk bs hbs
      · obtain ⟨n, junk, hn, hjunk, -, hdecode⟩ := ih (k - (encodeChar c).length) (by omega)
        refine ⟨n + 1, junk, Nat.succ_lt_succ hn, hjunk, fun _ _ _ _ => Nat.succ_pos _,
          fun bs hbs => ?_⟩
        rw [List.take_append, List.take_of_length_le (by omega), List.append_assoc]
        calc decode (encodeChar c ++ ((encode s).take (k - (encodeChar c).length) ++ bs))
            = c :: decode ((encode s).take (k - (encodeChar c).length) ++ bs) :=
              run_encodeChar c _
          _ = c :: (s.take n ++ (junk ++ decode bs)) := by rw [hdecode bs hbs]

end AgentGather.Library.Utf8
