import Mathlib.Data.Bool.AllAny
import Mathlib.Tactic.Common

/-!
# Base64

The encoder with padding, and the tolerant decoder of Node: it reads both alphabets, passes
over every other character and stops at the padding.
-/

namespace AgentGather.Library.Base64

def alphabet : List Char :=
  "ABCDEFGHIJKLMNOPQRSTUVWXYZabcdefghijklmnopqrstuvwxyz0123456789+/".toList

def digit (n : Nat) : Char := alphabet.getD n '='

/-- The value of a digit, also of the alphabet for URLs. -/
def value (c : Char) : Option Nat :=
  if c = '-' then some 62
  else if c = '_' then some 63
  else alphabet.idxOf? c

/-- Six bits at a time; the last bits of a group that is not full are zero. -/
def toSextets : List UInt8 → List Nat
  | [] => []
  | [x] => [x.toNat / 4, x.toNat % 4 * 16]
  | [x, y] => [x.toNat / 4, x.toNat % 4 * 16 + y.toNat / 16, y.toNat % 16 * 4]
  | x :: y :: z :: rest =>
      [x.toNat / 4, x.toNat % 4 * 16 + y.toNat / 16, y.toNat % 16 * 4 + z.toNat / 64,
        z.toNat % 64] ++ toSextets rest

/-- Eight bits at a time; what does not make a byte is dropped. -/
def ofSextets : List Nat → List UInt8
  | a :: b :: c :: d :: rest =>
      [UInt8.ofNat (a * 4 + b / 16), UInt8.ofNat (b % 16 * 16 + c / 4),
        UInt8.ofNat (c % 4 * 64 + d)] ++ ofSextets rest
  | [a, b, c] => [UInt8.ofNat (a * 4 + b / 16), UInt8.ofNat (b % 16 * 16 + c / 4)]
  | [a, b] => [UInt8.ofNat (a * 4 + b / 16)]
  | _ => []

def padding (bytes : List UInt8) : List Char :=
  List.replicate ((3 - bytes.length % 3) % 3) '='

/-- `buffer.toString("base64")` -/
def encode (bytes : List UInt8) : List Char := (toSextets bytes).map digit ++ padding bytes

/-- `Buffer.from(text, "base64")` -/
def decode (text : List Char) : List UInt8 :=
  ofSextets ((text.takeWhile (· != '=')).filterMap value)

theorem toSextets_lt (bytes : List UInt8) : ∀ n ∈ toSextets bytes, n < 64 := by
  induction bytes using toSextets.induct with
  | case1 => exact fun _ h => nomatch h
  | case2 x =>
      have hx := x.toNat_lt
      simp only [toSextets, List.mem_cons, List.not_mem_nil, or_false]
      omega
  | case3 x y =>
      have hx := x.toNat_lt
      have hy := y.toNat_lt
      simp only [toSextets, List.mem_cons, List.not_mem_nil, or_false]
      omega
  | case4 x y z rest ih =>
      have hx := x.toNat_lt
      have hy := y.toNat_lt
      have hz := z.toNat_lt
      intro n hn
      rw [toSextets, List.mem_append] at hn
      rcases hn with hn | hn
      · simp only [List.mem_cons, List.not_mem_nil, or_false] at hn
        omega
      · exact ih n hn

theorem ofSextets_toSextets (bytes : List UInt8) : ofSextets (toSextets bytes) = bytes := by
  induction bytes using toSextets.induct with
  | case1 => rfl
  | case2 x =>
      have hx := x.toNat_lt
      rw [toSextets, ofSextets, show x.toNat / 4 * 4 + x.toNat % 4 * 16 / 16 = x.toNat by omega,
        UInt8.ofNat_toNat]
  | case3 x y =>
      have hx := x.toNat_lt
      have hy := y.toNat_lt
      rw [toSextets, ofSextets,
        show x.toNat / 4 * 4 + (x.toNat % 4 * 16 + y.toNat / 16) / 16 = x.toNat by omega,
        show (x.toNat % 4 * 16 + y.toNat / 16) % 16 * 16 + y.toNat % 16 * 4 / 4 = y.toNat by
          omega,
        UInt8.ofNat_toNat, UInt8.ofNat_toNat]
  | case4 x y z rest ih =>
      have hx := x.toNat_lt
      have hy := y.toNat_lt
      have hz := z.toNat_lt
      simp only [toSextets, List.cons_append, List.nil_append]
      rw [ofSextets, ih,
        show x.toNat / 4 * 4 + (x.toNat % 4 * 16 + y.toNat / 16) / 16 = x.toNat by omega,
        show (x.toNat % 4 * 16 + y.toNat / 16) % 16 * 16 +
          (y.toNat % 16 * 4 + z.toNat / 64) / 4 = y.toNat by omega,
        show (y.toNat % 16 * 4 + z.toNat / 64) % 4 * 64 + z.toNat % 64 = z.toNat by omega,
        UInt8.ofNat_toNat, UInt8.ofNat_toNat, UInt8.ofNat_toNat]
      rfl

theorem value_digit : ∀ n < 64, value (digit n) = some n := by
  decide +kernel

theorem filterMap_value {sextets : List Nat} (h : ∀ n ∈ sextets, n < 64) :
    (sextets.map digit).filterMap value = sextets := by
  induction sextets with
  | nil => rfl
  | cons n sextets ih =>
      rw [List.map_cons, List.filterMap_cons_some (value_digit n (h n List.mem_cons_self)),
        ih fun m hm => h m (List.mem_cons_of_mem _ hm)]

/-- The digits of an encoded text, which are no padding. -/
theorem mem_digits {bytes : List UInt8} {c : Char} (h : c ∈ (toSextets bytes).map digit) :
    c ∈ alphabet ∧ c ≠ '=' := by
  have hdigit : ∀ n < 64, digit n ∈ alphabet ∧ digit n ≠ '=' := by decide +kernel
  obtain ⟨n, hn, rfl⟩ := List.mem_map.mp h
  exact hdigit n (toSextets_lt bytes n hn)

/-- What is encoded is decoded to the same bytes. -/
theorem decode_encode (bytes : List UInt8) : decode (encode bytes) = bytes := by
  have hlt := toSextets_lt bytes
  have hkeep : ∀ c ∈ (toSextets bytes).map digit, (c != '=') = true := by
    intro c hc
    simpa using (mem_digits hc).2
  have hstop : (padding bytes).takeWhile (· != '=') = [] := by
    rw [padding]
    cases (3 - bytes.length % 3) % 3 with
    | zero => rfl
    | succ k => rfl
  rw [decode, encode, List.takeWhile_append_of_pos hkeep, hstop, List.append_nil,
    filterMap_value hlt, ofSextets_toSextets]

theorem length_toSextets (bytes : List UInt8) :
    (toSextets bytes).length = (bytes.length * 4 + 2) / 3 := by
  induction bytes using toSextets.induct with
  | case1 => rfl
  | case2 x => simp [toSextets]
  | case3 x y => simp [toSextets]
  | case4 x y z rest ih =>
      simp only [toSextets, List.length_append, List.length_cons, List.length_nil, ih]
      omega

theorem length_encode (bytes : List UInt8) :
    (encode bytes).length = (bytes.length + 2) / 3 * 4 := by
  rw [encode, List.length_append, List.length_map, length_toSextets, padding,
    List.length_replicate]
  have hcases : bytes.length % 3 = 0 ∨ bytes.length % 3 = 1 ∨ bytes.length % 3 = 2 := by omega
  rcases hcases with h | h | h
  · rw [h]
    omega
  · rw [h]
    omega
  · rw [h]
    omega

/-- The last two characters tell how many bytes the last group has. -/
theorem reverse_encode {bytes : List UInt8} (hbytes : bytes ≠ []) :
    ∃ c d rest, (encode bytes).reverse = c :: d :: rest ∧
      (c = '=' ↔ bytes.length % 3 ≠ 0) ∧ (d = '=' ↔ bytes.length % 3 = 1) := by
  have hpos : 0 < bytes.length := List.length_pos_iff.mpr hbytes
  have hlength : ((toSextets bytes).map digit).reverse.length = (bytes.length * 4 + 2) / 3 := by
    rw [List.length_reverse, List.length_map, length_toSextets]
  have hdigit : ∀ c ∈ ((toSextets bytes).map digit).reverse, c ≠ '=' :=
    fun c hc => (mem_digits (List.mem_reverse.mp hc)).2
  rw [encode, List.reverse_append, padding, List.reverse_replicate]
  match hdigits : ((toSextets bytes).map digit).reverse with
  | [] =>
      rw [hdigits, List.length_nil] at hlength
      omega
  | [x] =>
      rw [hdigits, List.length_singleton] at hlength
      omega
  | x :: y :: rest =>
      rw [hdigits] at hdigit
      have hx : x ≠ '=' := hdigit x List.mem_cons_self
      have hy : y ≠ '=' := hdigit y (List.mem_cons_of_mem _ List.mem_cons_self)
      have hcases : bytes.length % 3 = 0 ∨ bytes.length % 3 = 1 ∨ bytes.length % 3 = 2 := by
        omega
      rcases hcases with h | h | h
      · rw [h]
        exact ⟨x, y, rest, rfl, by simp [hx], by simp [hy]⟩
      · rw [h]
        exact ⟨'=', '=', x :: y :: rest, rfl, by simp, by simp⟩
      · rw [h]
        exact ⟨'=', x, y :: rest, rfl, by simp, by simp [hx]⟩

end AgentGather.Library.Base64
