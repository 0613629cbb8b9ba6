import ESignSoft.Lib.JsText
import Mathlib.Logic.Function.Basic

/-!
# Base64

Bytes are written three at a time as four letters of six bits each.  Two alphabets differ in their last two
letters, and the last group may be padded.  The reader takes either alphabet, stops at the first padding, passes
over what else is no letter, and drops what does not make up a byte.

* `decode_encode` — what is written reads back, in either alphabet and with or without padding;
* `length_decode_le` — no text reads as more than three bytes for four of its units;
* `length_encode` — how long the text of some bytes is.
-/

namespace ESignSoft.Lib.Base64

open ESignSoft.Lib.JsText

/-- Groups of six bits, the last one filled up with zeros. -/
def sextets : List UInt8 → List Nat
  | [] => []
  | [a] => [a.toNat / 4, a.toNat % 4 * 16]
  | [a, b] => [a.toNat / 4, a.toNat % 4 * 16 + b.toNat / 16, b.toNat % 16 * 4]
  | a :: b :: c :: rest =>
      a.toNat / 4 :: (a.toNat % 4 * 16 + b.toNat / 16) :: (b.toNat % 16 * 4 + c.toNat / 64) :: c.toNat % 64 ::
        sextets rest

/-- The whole bytes in groups of six bits. -/
def octets : List Nat → List UInt8
  | x :: y :: z :: w :: rest =>
      UInt8.ofNat (x * 4 + y / 16) :: UInt8.ofNat (y % 16 * 16 + z / 4) :: UInt8.ofNat (z % 4 * 64 + w) ::
        octets rest
  | [x, y, z] => [UInt8.ofNat (x * 4 + y / 16), UInt8.ofNat (y % 16 * 16 + z / 4)]
  | [x, y] => [UInt8.ofNat (x * 4 + y / 16)]
  | _ => []

/-- The two alphabets. -/
inductive Alphabet
  | base64
  | base64url

/-- The letter of six bits. -/
def letter (alphabet : Alphabet) (n : Nat) : UInt16 :=
  if n < 26 then 0x41 + UInt16.ofNat n
  else if n < 52 then 0x61 + UInt16.ofNat (n - 26)
  else if n < 62 then 0x30 + UInt16.ofNat (n - 52)
  else
    match alphabet with
    | .base64 => if n = 62 then 0x2B else 0x2F
    | .base64url => if n = 62 then 0x2D else 0x5F

/-- The six bits of a letter of either alphabet. -/
def letterValue (u : UInt16) : Option Nat :=
  if 0x41 ≤ u ∧ u ≤ 0x5A then some (u.toNat - 0x41)
  else if 0x61 ≤ u ∧ u ≤ 0x7A then some (u.toNat - 0x61 + 26)
  else if 0x30 ≤ u ∧ u ≤ 0x39 then some (u.toNat - 0x30 + 52)
  else if u = 0x2B ∨ u = 0x2D then some 62
  else if u = 0x2F ∨ u = 0x5F then some 63
  else none

/-- `toString('base64')`, padded, and `toString('base64url')`, not padded. -/
def encode (alphabet : Alphabet) (bytes : List UInt8) : JsString :=
  let letters := (sextets bytes).map (letter alphabet)
  match alphabet with
  | .base64 => letters ++ List.replicate ((3 - bytes.length % 3) % 3) 0x3D
  | .base64url => letters

/-- `Buffer.from(text, 'base64')`. -/
def decode (text : JsString) : List UInt8 :=
  octets ((text.takeWhile fun u => u != 0x3D).filterMap letterValue)

theorem sextets_lt {bytes : List UInt8} : ∀ n ∈ sextets bytes, n < 64 := by
  have hlt (a : UInt8) : a.toNat < 256 := a.toNat_lt
  fun_induction sextets bytes with
  | case1 => simp
  | case2 a =>
      have ha := hlt a
      simp only [List.mem_cons, List.not_mem_nil, or_false]
      rintro n (rfl | rfl) <;> omega
  | case3 a b =>
      have ha := hlt a
      have hb := hlt b
      simp only [List.mem_cons, List.not_mem_nil, or_false]
      rintro n (rfl | rfl | rfl) <;> omega
  | case4 a b c rest ih =>
      have ha := hlt a
      have hb := hlt b
      have hc := hlt c
      simp only [List.mem_cons]
      rintro n (rfl | rfl | rfl | rfl | hrest)
      · omega
      · omega
      · omega
      · omega
      · exact ih n hrest

/-- The bytes come back from their groups. -/
theorem octets_sextets (bytes : List UInt8) : octets (sextets bytes) = bytes := by
  have hlt (a : UInt8) : a.toNat < 256 := a.toNat_lt
  have hbyte {n : Nat} {a : UInt8} (h : n = a.toNat) : UInt8.ofNat n = a := by
    rw [h, UInt8.ofNat_toNat]
  fun_induction sextets bytes with
  | case1 => rfl
  | case2 a =>
      have ha := hlt a
      rw [octets, hbyte (show _ = a.toNat by omega)]
  | case3 a b =>
      have ha := hlt a
      have hb := hlt b
      rw [octets, hbyte (show _ = a.toNat by omega), hbyte (show _ = b.toNat by omega)]
  | case4 a b c rest ih =>
      have ha := hlt a
      have hb := hlt b
      have hc := hlt c
      rw [octets, hbyte (show _ = a.toNat by omega), hbyte (show _ = b.toNat by omega),
        hbyte (show _ = c.toNat by omega), ih]

theorem letterValue_letter (alphabet : Alphabet) : ∀ n < 64, letterValue (letter alphabet n) = some n := by
  cases alphabet <;> decide

theorem filterMap_letters {alphabet : Alphabet} {groups : List Nat} (h : ∀ n ∈ groups, n < 64) :
    (groups.map (letter alphabet)).filterMap letterValue = groups := by
  rw [List.filterMap_map]
  calc groups.filterMap (letterValue ∘ letter alphabet) = groups.filterMap some :=
        List.filterMap_congr fun n hn => letterValue_letter alphabet n (h n hn)
    _ = groups := List.filterMap_some

theorem letter_ne_padding (alphabet : Alphabet) : ∀ n < 64, letter alphabet n ≠ 0x3D := by
  cases alphabet <;> decide

theorem takeWhile_letters {alphabet : Alphabet} {groups : List Nat} (h : ∀ n ∈ groups, n < 64) (padding : Nat) :
    (groups.map (letter alphabet) ++ List.replicate padding 0x3D).takeWhile (fun u => u != 0x3D) =
      groups.map (letter alphabet) := by
  have hletters : ∀ u ∈ groups.map (letter alphabet), (u != 0x3D) = true := by
    intro u hu
    obtain ⟨n, hn, rfl⟩ := List.mem_map.mp hu
    simpa using letter_ne_padding alphabet n (h n hn)
  have hpadding : (List.replicate padding (0x3D : UInt16)).takeWhile (fun u => u != 0x3D) = [] := by
    cases padding <;> rfl
  rw [List.takeWhile_append_of_pos hletters, hpadding, List.append_nil]

/-- **What is written reads back.** -/
theorem decode_encode (alphabet : Alphabet) (bytes : List UInt8) : decode (encode alphabet bytes) = bytes := by
  have hread (padding : Nat) :
      decode ((sextets bytes).map (letter alphabet) ++ List.replicate padding 0x3D) = bytes := by
    rw [decode, takeWhile_letters sextets_lt, filterMap_letters sextets_lt, octets_sextets]
  cases alphabet with
  | base64 => exact hread _
  | base64url => simpa [encode] using hread 0

/-! ## Lengths -/

theorem length_octets (groups : List Nat) : (octets groups).length = 3 * groups.length / 4 := by
  fun_induction octets groups with
  | case1 x y z w rest ih =>
      simp only [List.length_cons, ih]
      omega
  | case2 x y z => simp
  | case3 x y => simp
  | case4 groups hfour hthree htwo =>
      match groups with
      | [] => rfl
      | [x] => simp
      | [x, y] => exact absurd rfl (htwo x y)
      | [x, y, z] => exact absurd rfl (hthree x y z)
      | x :: y :: z :: w :: rest => exact absurd rfl (hfour x y z w rest)

/-- **No text reads as more than three bytes for four of its units.** -/
theorem length_decode_le (text : JsString) : 4 * (decode text).length ≤ 3 * text.length := by
  have hle : ((text.takeWhile fun u => u != 0x3D).filterMap letterValue).length ≤ text.length :=
    (List.length_filterMap_le _ _).trans (List.takeWhile_prefix _).length_le
  rw [decode, length_octets]
  omega

theorem length_sextets (bytes : List UInt8) : (sextets bytes).length = (4 * bytes.length + 2) / 3 := by
  fun_induction sextets bytes with
  | case1 => rfl
  | case2 a => simp
  | case3 a b => simp
  | case4 a b c rest ih =>
      simp only [List.length_cons, ih]
      omega

theorem length_encode (bytes : List UInt8) : (encode .base64 bytes).length = 4 * ((bytes.length + 2) / 3) ∧
    (encode .base64url bytes).length = (4 * bytes.length + 2) / 3 := by
  simp only [encode, List.length_append, List.length_map, List.length_replicate, length_sextets, and_true]
  omega

end ESignSoft.Lib.Base64
