import ESignSoft.Lib.Utf8

/-!
# Percent-encoding

Bytes are written as ASCII text: some stand for themselves, every other one is written as a percent sign and
two hexadecimal digits.  Which bytes stand for themselves is a parameter; the percent sign must not.

* `percentDecode_percentEncode` — what is encoded reads back, whatever is kept;
* `decodeURIComponent_encodeURIComponent` — so does the component of a URI, for every string that has a UTF-8
  form.
-/

namespace ESignSoft.Lib.PercentEncoding

open ESignSoft.Lib.JsText ESignSoft.Lib.Utf8

def hexDigit (n : Nat) : UInt8 := if n < 10 then 0x30 + UInt8.ofNat n else 0x37 + UInt8.ofNat n

/-- The value of a hexadecimal digit, in upper or lower case. -/
def hexValue (b : UInt8) : Option Nat :=
  if 0x30 ≤ b ∧ b ≤ 0x39 then some (b.toNat - 0x30)
  else if 0x41 ≤ b ∧ b ≤ 0x46 then some (b.toNat - 0x37)
  else if 0x61 ≤ b ∧ b ≤ 0x66 then some (b.toNat - 0x57)
  else none

def encodeByte (keep : UInt8 → Bool) (b : UInt8) : List UInt8 :=
  if keep b then [b] else [0x25, hexDigit (b.toNat / 16), hexDigit (b.toNat % 16)]

def percentEncode (keep : UInt8 → Bool) (bytes : List UInt8) : List UInt8 := bytes.flatMap (encodeByte keep)

/-- The bytes of a text; a percent sign without two digits after it makes it fail. -/
def percentDecode : List UInt8 → Option (List UInt8)
  | [] => some []
  | b :: rest =>
      if b ≠ 0x25 then (percentDecode rest).map fun bytes => b :: bytes
      else
        match rest with
        | high :: low :: rest =>
            match hexValue high, hexValue low with
            | some h, some l => (percentDecode rest).map fun bytes => UInt8.ofNat (h * 16 + l) :: bytes
            | _, _ => none
        | _ => none

theorem percentDecode_cons_of_ne {b : UInt8} (hb : b ≠ 0x25) (rest : List UInt8) :
    percentDecode (b :: rest) = (percentDecode rest).map fun bytes => b :: bytes := by
  match rest with
  | [] => simp [percentDecode, hb]
  | [c] => simp [percentDecode, hb]
  | c :: d :: rest => rw [percentDecode, if_pos hb]

theorem percentDecode_percent {high low : UInt8} {h l : Nat} (hh : hexValue high = some h)
    (hl : hexValue low = some l) (rest : List UInt8) : percentDecode (0x25 :: high :: low :: rest) =
      (percentDecode rest).map fun bytes => UInt8.ofNat (h * 16 + l) :: bytes := by
  rw [percentDecode, if_neg (by simp), hh, hl]

theorem hexValue_hexDigit : ∀ n < 16, hexValue (hexDigit n) = some n := by decide

section Keep

variable {keep : UInt8 → Bool}

theorem percentDecode_encodeByte (hpercent : keep 0x25 = false) (b : UInt8) (rest : List UInt8) :
    percentDecode (encodeByte keep b ++ rest) = (percentDecode rest).map fun bytes => b :: bytes := by
  unfold encodeByte
  by_cases hkeep : keep b = true
  · have hb : b ≠ 0x25 := by
      rintro rfl
      rw [hpercent] at hkeep
      cases hkeep
    rw [if_pos hkeep, List.singleton_append, percentDecode_cons_of_ne hb]
  · have hlt : b.toNat < 256 := b.toNat_lt
    have hvalue : UInt8.ofNat (b.toNat / 16 * 16 + b.toNat % 16) = b := by
      rw [Nat.div_add_mod', UInt8.ofNat_toNat]
    rw [if_neg hkeep, List.cons_append, List.cons_append, List.cons_append, List.nil_append,
      percentDecode_percent (hexValue_hexDigit _ (by omega)) (hexValue_hexDigit _ (by omega)), hvalue]

/-- **What is encoded reads back.** -/
theorem percentDecode_percentEncode (hpercent : keep 0x25 = false) (bytes : List UInt8) :
    percentDecode (percentEncode keep bytes) = some bytes := by
  induction bytes with
  | nil => rfl
  | cons b bytes ih =>
      unfold percentEncode at ih ⊢
      rw [List.flatMap_cons, percentDecode_encodeByte hpercent, ih]
      rfl

theorem percentEncode_of_kept {bytes : List UInt8} (h : ∀ b ∈ bytes, keep b = true) :
    percentEncode keep bytes = bytes := by
  unfold percentEncode
  calc bytes.flatMap (encodeByte keep) = bytes.flatMap fun b => [b] :=
        List.flatMap_congr fun b hb => by rw [encodeByte, if_pos (h b hb)]
    _ = bytes := by simp

/-- The text is ASCII when what is kept is. -/
theorem lt_of_mem_percentEncode (hkeep : ∀ b, keep b = true → b < 0x80) {bytes : List UInt8} {b : UInt8}
    (hb : b ∈ percentEncode keep bytes) : b < 0x80 := by
  have hdigit : ∀ n < 16, hexDigit n < 0x80 := by decide
  obtain ⟨c, -, hmem⟩ := List.mem_flatMap.mp hb
  unfold encodeByte at hmem
  split at hmem
  · rename_i hc
    obtain rfl := List.mem_singleton.mp hmem
    exact hkeep b hc
  · have hlt : c.toNat < 256 := c.toNat_lt
    simp only [List.mem_cons, List.not_mem_nil, or_false] at hmem
    rcases hmem with rfl | rfl | rfl
    · decide
    · exact hdigit _ (by omega)
    · exact hdigit _ (by omega)

end Keep

/-! ## ASCII text -/

/-- ASCII bytes as a string. -/
def asciiText (bytes : List UInt8) : JsString := bytes.map UInt8.toUInt16

theorem toNat_toUInt16 (b : UInt8) : b.toUInt16.toNat = b.toNat := by simp

theorem not_surrogate_of_ascii {u : UInt16} (h : u.toNat < 0x80) :
    isHighSurrogate u = false ∧ isLowSurrogate u = false := by
  constructor
  · rw [← Bool.not_eq_true, isHighSurrogate_iff]
    omega
  · rw [← Bool.not_eq_true, isLowSurrogate_iff]
    omega

theorem toNat_charOf_ascii {n : Nat} (h : n < 0x80) : (charOf n).toNat = n := by
  rw [toNat_charOf, if_pos (Or.inl (by omega))]

theorem utf8EncodeChar_charOf {n : Nat} (h : n < 0x80) : String.utf8EncodeChar (charOf n) = [UInt8.ofNat n] := by
  have hval : (charOf n).val.toNat = n := toNat_charOf_ascii h
  have hle : (charOf n).val ≤ 127 := by
    rw [UInt32.le_iff_toNat_le, hval]
    exact Nat.lt_succ_iff.mp h
  rw [String.utf8EncodeChar_eq_singleton (Char.utf8Size_eq_one_iff.mpr hle), ← UInt8.ofNat_uInt32ToNat, hval]

theorem utf16_charOf {n : Nat} (h : n < 0x80) : utf16 (charOf n) = [UInt16.ofNat n] := by
  rw [utf16, toNat_charOf_ascii h, if_pos (by omega)]

theorem chars_asciiText {bytes : List UInt8} (h : ∀ b ∈ bytes, b < 0x80) :
    chars (asciiText bytes) = bytes.map fun b => charOf b.toNat := by
  induction bytes with
  | nil => rfl
  | cons b bytes ih =>
      have hb : b.toUInt16.toNat < 0x80 := by
        rw [toNat_toUInt16]
        exact UInt8.lt_iff_toNat_lt.mp (h b (by simp))
      obtain ⟨hhigh, hlow⟩ := not_surrogate_of_ascii hb
      have hchars : chars (b.toUInt16 :: asciiText bytes) = charOf b.toUInt16.toNat :: chars (asciiText bytes) :=
        chars_append_cons hhigh hlow [] (asciiText bytes)
      rw [asciiText, List.map_cons, ← asciiText, hchars, toNat_toUInt16, List.map_cons,
        ih fun c hc => h c (List.mem_cons_of_mem _ hc)]

/-- The UTF-8 form of ASCII text is its bytes. -/
theorem utf8_asciiText {bytes : List UInt8} (h : ∀ b ∈ bytes, b < 0x80) : utf8 (asciiText bytes) = bytes := by
  rw [utf8, chars_asciiText h, List.flatMap_map]
  calc bytes.flatMap (fun b => String.utf8EncodeChar (charOf b.toNat)) = bytes.flatMap fun b => [b] :=
        List.flatMap_congr fun b hb => by
          rw [utf8EncodeChar_charOf (UInt8.lt_iff_toNat_lt.mp (h b hb)), UInt8.ofNat_toNat]
    _ = bytes := by simp

theorem toWellFormed_asciiText {bytes : List UInt8} (h : ∀ b ∈ bytes, b < 0x80) :
    toWellFormed (asciiText bytes) = asciiText bytes := by
  rw [toWellFormed, chars_asciiText h, List.flatMap_map]
  calc bytes.flatMap (fun b => utf16 (charOf b.toNat)) = bytes.flatMap fun b => [b.toUInt16] :=
        List.flatMap_congr fun b hb => by
          rw [utf16_charOf (UInt8.lt_iff_toNat_lt.mp (h b hb))]
          simp
    _ = asciiText bytes := List.map_eq_flatMap.symm

/-! ## Components of a URI -/

/-- The bytes `encodeURIComponent` leaves alone. -/
def unreserved (b : UInt8) : Bool :=
  (0x30 ≤ b && b ≤ 0x39) || (0x41 ≤ b && b ≤ 0x5A) || (0x61 ≤ b && b ≤ 0x7A) ||
    [0x2D, 0x5F, 0x2E, 0x21, 0x7E, 0x2A, 0x27, 0x28, 0x29].contains b

/-- `encodeURIComponent`; a surrogate that is not one half of a pair makes it throw. -/
def encodeURIComponent (s : JsString) : Option JsString :=
  if toWellFormed s = s then some (asciiText (percentEncode unreserved (utf8 s))) else none

/-- `decodeURIComponent`. -/
def decodeURIComponent (s : JsString) : Option JsString :=
  (percentDecode (utf8 s)).bind fun bytes =>
    bytes.toByteArray.utf8Decode?.map fun decoded => decoded.toList.flatMap utf16

theorem unreserved_lt (b : UInt8) (h : unreserved b = true) : b < 0x80 := by
  have hall : (List.range 256).all (fun n => !unreserved (UInt8.ofNat n) || UInt8.ofNat n < 0x80) = true := by
    decide +kernel
  have hb := List.all_eq_true.mp hall b.toNat (List.mem_range.mpr b.toNat_lt)
  simpa [h] using hb

/-- **A component reads back**, for every string that has a UTF-8 form. -/
theorem decodeURIComponent_encodeURIComponent {s component : JsString}
    (h : encodeURIComponent s = some component) : decodeURIComponent component = some s := by
  unfold encodeURIComponent at h
  split at h
  · rename_i hwell
    obtain rfl := Option.some.inj h
    have hascii : ∀ b ∈ percentEncode unreserved (utf8 s), b < 0x80 := fun b =>
      lt_of_mem_percentEncode unreserved_lt
    have hdecode : (utf8 s).toByteArray.utf8Decode? = some (chars s).toArray := by
      have hencode : (utf8 s).toByteArray = (chars s).utf8Encode := by rw [utf8, List.utf8Encode]
      rw [hencode, List.utf8Decode?_utf8Encode]
    unfold decodeURIComponent
    rw [utf8_asciiText hascii, percentDecode_percentEncode (by decide), Option.bind_some, hdecode, Option.map_some]
    exact congrArg some hwell
  · cases h

/-- What is unreserved throughout is its own component. -/
theorem encodeURIComponent_of_unreserved {bytes : List UInt8} (h : ∀ b ∈ bytes, unreserved b = true) :
    encodeURIComponent (asciiText bytes) = some (asciiText bytes) := by
  have hascii : ∀ b ∈ bytes, b < 0x80 := fun b hb => unreserved_lt b (h b hb)
  rw [encodeURIComponent, if_pos (toWellFormed_asciiText hascii), utf8_asciiText hascii, percentEncode_of_kept h]

end ESignSoft.Lib.PercentEncoding
