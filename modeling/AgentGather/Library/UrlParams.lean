import AgentGather.Library.Json
import AgentGather.Library.Url

/-!
# Query parameters

The parser of `application/x-www-form-urlencoded` in the WHATWG URL Standard.
-/

namespace AgentGather.Library.Url

/-- Bytes, with each escape replaced by its byte. -/
def percentDecode : List Nat → List Nat
  | 0x25 :: a :: b :: rest =>
      match Json.hexValue (Char.ofNat a), Json.hexValue (Char.ofNat b) with
      | some high, some low => (high * 16 + low) :: percentDecode rest
      | _, _ => 0x25 :: percentDecode (a :: b :: rest)
  | b :: rest => b :: percentDecode rest
  | [] => []

def formDecode (s : List Char) : List Char :=
  Utf8.decode (percentDecode (Utf8.encode (s.map fun c => if c = '+' then ' ' else c)))

def parseForm (s : List Char) : List (List Char × List Char) :=
  ((s.splitOnP (· == '&')).filter (· ≠ [])).map fun piece =>
    let parts := splitAtFirst '=' piece
    (formDecode parts.1, formDecode (parts.2.getD []))

/-- `searchParams` -/
def searchParams (u : Url) : List (List Char × List Char) := parseForm (u.query.getD [])

/-- `new URLSearchParams(text)`; a question mark in front is passed over. -/
def paramsOf (s : List Char) : List (List Char × List Char) :=
  parseForm (if s.head? = some '?' then s.tail else s)

/-- `get(name)` -/
def getParam (name : List Char) (params : List (List Char × List Char)) : Option (List Char) :=
  params.lookup name

/-! ## The text of a parameter -/

/-- The texts between ampersands that are parameters. -/
def formPieces (s : List Char) : List (List Char) :=
  (s.splitOnP (· == '&')).filter (· ≠ [])

/-- The name and the value of a parameter, as they are spelled. -/
def rawName (piece : List Char) : List Char := (splitAtFirst '=' piece).1

def rawValue (piece : List Char) : List Char := (splitAtFirst '=' piece).2.getD []

theorem parseForm_eq (s : List Char) : parseForm s =
    (formPieces s).map fun piece => (formDecode (rawName piece), formDecode (rawValue piece)) :=
  rfl

/-- A parameter is found by its decoded name. -/
theorem getParam_parseForm (name s : List Char) : getParam name (parseForm s) =
    ((formPieces s).find? fun piece => formDecode (rawName piece) == name).map
      fun piece => formDecode (rawValue piece) := by
  rw [parseForm_eq, getParam]
  induction formPieces s with
  | nil => rfl
  | cons piece pieces ih =>
      rw [List.map_cons, List.lookup_cons, List.find?_cons, BEq.comm]
      cases formDecode (rawName piece) == name with
      | true => rfl
      | false => exact ih

/-- Text without an escape keeps its bytes. -/
theorem percentDecode_of_not_mem {bytes : List Nat} (h : 0x25 ∉ bytes) :
    percentDecode bytes = bytes := by
  induction bytes with
  | nil => rfl
  | cons b bytes ih =>
      rw [List.mem_cons, not_or] at h
      rw [percentDecode.eq_2 _ _ fun _ _ _ hb _ => h.1 hb.symm, ih h.2]

theorem percent_not_mem_encode {s : List Char} (h : '%' ∉ s) : 0x25 ∉ Utf8.encode s := by
  intro hmem
  obtain ⟨c, hc, hbyte⟩ := List.mem_flatMap.mp hmem
  have hcode : c.toNat = 0x25 := by
    simp only [Utf8.encodeChar] at hbyte
    split_ifs at hbyte <;> simp only [List.mem_cons, List.not_mem_nil, or_false] at hbyte
    all_goals omega
  have hpercent : c = '%' := Char.toNat_inj.mp hcode
  exact h (hpercent ▸ hc)

/-- Only an escape makes a name that has neither spaces nor plus signs of another text. -/
theorem eq_of_formDecode {s name : List Char} (hname : ∀ c ∈ name, c ≠ ' ')
    (hs : '%' ∉ s) (h : formDecode s = name) : s = name := by
  have hplus : '%' ∉ s.map fun c => if c = '+' then ' ' else c := by
    intro hmem
    obtain ⟨c, hc, hpercent⟩ := List.mem_map.mp hmem
    split_ifs at hpercent with hplus
    · cases hpercent
    · exact hs (hpercent ▸ hc)
  rw [formDecode, percentDecode_of_not_mem (percent_not_mem_encode hplus),
    Utf8.decode_encode] at h
  have hkept : ∀ c ∈ s, (if c = '+' then ' ' else c) = c := by
    intro c hc
    have hmem : (if c = '+' then ' ' else c) ∈ name := h ▸ List.mem_map_of_mem hc
    split_ifs at hmem ⊢ with hplus
    · exact absurd rfl (hname ' ' hmem)
    · rfl
  rw [← h, List.map_congr_left hkept, List.map_id']

end AgentGather.Library.Url
