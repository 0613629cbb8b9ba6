import ESignSoft.Lib.JsText

/-!
# The UTF-8 form of an ECMAScript string

A string is encoded character by character; a surrogate that is not one half of a pair has no encoding
and is replaced with U+FFFD first, as `Buffer.from` and `toWellFormed` do.

* `utf8_inj` — two strings have one encoding exactly when they have the same characters;
* `toWellFormed_inj` — that is, when `toWellFormed` makes them equal.
-/

namespace ESignSoft.Lib.Utf8

open ESignSoft.Lib.JsText

/-- The character of a code point; an unpaired surrogate is replaced. -/
def charOf (cp : Nat) : Char := if cp.isValidChar then Char.ofNat cp else '\uFFFD'

def chars (s : JsString) : List Char := (codePoints s).map fun cp => charOf cp.1

/-- `Buffer.from(s, 'utf8')`. -/
def utf8 (s : JsString) : List UInt8 := (chars s).flatMap String.utf8EncodeChar

/-- `toWellFormed`. -/
def toWellFormed (s : JsString) : JsString := (chars s).flatMap utf16

theorem utf8_inj {s t : JsString} : utf8 s = utf8 t ↔ chars s = chars t := by
  constructor
  · intro h
    have hencode : (chars s).utf8Encode = (chars t).utf8Encode := by
      simpa [utf8, List.utf8Encode] using congrArg List.toByteArray h
    have hdecode := congrArg ByteArray.utf8Decode? hencode
    rw [List.utf8Decode?_utf8Encode, List.utf8Decode?_utf8Encode] at hdecode
    simpa using Option.some.inj hdecode
  · intro h
    rw [utf8, h, utf8]

/-! ## Characters and code units -/

theorem toNat_charOf (cp : Nat) : (charOf cp).toNat = if cp.isValidChar then cp else 0xFFFD := by
  unfold charOf
  split
  · rename_i hvalid
    rw [Char.ofNat, dif_pos hvalid]
    rfl
  · rfl

theorem charOf_toNat (c : Char) : charOf c.toNat = c := by
  have hvalid : c.toNat.isValidChar := c.valid
  rw [charOf, if_pos hvalid, Char.ofNat_toNat]

theorem utf16_eq (c : Char) :
    (c.toNat < 0x10000 ∧ utf16 c = [UInt16.ofNat c.toNat]) ∨
      (0x10000 ≤ c.toNat ∧ utf16 c = [UInt16.ofNat (0xD800 + (c.toNat - 0x10000) / 0x400),
        UInt16.ofNat (0xDC00 + (c.toNat - 0x10000) % 0x400)]) := by
  unfold utf16
  split
  · exact Or.inl ⟨‹_›, rfl⟩
  · exact Or.inr ⟨by omega, rfl⟩

theorem isHighSurrogate_iff {u : UInt16} :
    isHighSurrogate u = true ↔ 0xD800 ≤ u.toNat ∧ u.toNat ≤ 0xDBFF := by
  simp [isHighSurrogate, UInt16.le_iff_toNat_le]

theorem isLowSurrogate_iff {u : UInt16} :
    isLowSurrogate u = true ↔ 0xDC00 ≤ u.toNat ∧ u.toNat ≤ 0xDFFF := by
  simp [isLowSurrogate, UInt16.le_iff_toNat_le]

theorem codePoints_cons_of_not_high {u : UInt16} (h : isHighSurrogate u = false) (rest : JsString) :
    codePoints (u :: rest) = (u.toNat, [u]) :: codePoints rest := by
  cases rest with
  | nil => rfl
  | cons v rest => simp [codePoints, h]

/-- The code units of characters read back as the characters. -/
theorem codePoints_flatMap_utf16 (l : List Char) :
    codePoints (l.flatMap utf16) = l.map fun c => (c.toNat, utf16 c) := by
  induction l with
  | nil => rfl
  | cons c l ih =>
      rw [List.flatMap_cons, List.map_cons]
      have hvalid : c.toNat < 0xD800 ∨ 0xDFFF < c.toNat ∧ c.toNat < 0x110000 := c.valid
      rcases utf16_eq c with ⟨hsmall, hunits⟩ | ⟨hlarge, hunits⟩
      · have hunit : (UInt16.ofNat c.toNat).toNat = c.toNat := by
          rw [UInt16.toNat_ofNat', Nat.mod_eq_of_lt (by omega)]
        have hhigh : isHighSurrogate (UInt16.ofNat c.toNat) = false := by
          rw [← Bool.not_eq_true, isHighSurrogate_iff, hunit]
          omega
        rw [hunits, List.singleton_append, codePoints_cons_of_not_high hhigh, ih, hunit]
      · have hfirst : (UInt16.ofNat (0xD800 + (c.toNat - 0x10000) / 0x400)).toNat =
            0xD800 + (c.toNat - 0x10000) / 0x400 := by
          rw [UInt16.toNat_ofNat', Nat.mod_eq_of_lt (by omega)]
        have hsecond : (UInt16.ofNat (0xDC00 + (c.toNat - 0x10000) % 0x400)).toNat =
            0xDC00 + (c.toNat - 0x10000) % 0x400 := by
          rw [UInt16.toNat_ofNat', Nat.mod_eq_of_lt (by omega)]
        have hpair : (isHighSurrogate (UInt16.ofNat (0xD800 + (c.toNat - 0x10000) / 0x400)) &&
            isLowSurrogate (UInt16.ofNat (0xDC00 + (c.toNat - 0x10000) % 0x400))) = true := by
          rw [Bool.and_eq_true, isHighSurrogate_iff, isLowSurrogate_iff, hfirst, hsecond]
          omega
        rw [hunits, List.cons_append, List.singleton_append, codePoints, if_pos hpair, ih, hfirst,
          hsecond]
        have hvalue : (0xD800 + (c.toNat - 0x10000) / 0x400 - 0xD800) * 0x400 +
            (0xDC00 + (c.toNat - 0x10000) % 0x400 - 0xDC00) + 0x10000 = c.toNat := by
          omega
        rw [hvalue]

theorem chars_flatMap_utf16 (l : List Char) : chars (l.flatMap utf16) = l := by
  rw [chars, codePoints_flatMap_utf16, List.map_map]
  calc l.map ((fun cp : Nat × JsString => charOf cp.1) ∘ fun c => (c.toNat, utf16 c))
      = l.map id := List.map_congr_left fun c _ => charOf_toNat c
    _ = l := List.map_id l

/-- Two strings are made equal exactly when they have the same characters. -/
theorem toWellFormed_inj {s t : JsString} : toWellFormed s = toWellFormed t ↔ chars s = chars t := by
  constructor
  · intro h
    have hchars := congrArg chars h
    rwa [toWellFormed, toWellFormed, chars_flatMap_utf16, chars_flatMap_utf16] at hchars
  · intro h
    rw [toWellFormed, h, toWellFormed]

/-- A unit that is no surrogate stands for itself, whatever is around it. -/
theorem codePoints_append_cons {u : UInt16} (hhigh : isHighSurrogate u = false)
    (hlow : isLowSurrogate u = false) (a b : JsString) :
    codePoints (a ++ u :: b) = codePoints a ++ (u.toNat, [u]) :: codePoints b := by
  have hcons := codePoints_cons_of_not_high hhigh b
  fun_induction codePoints a with
  | case1 => exact hcons
  | case2 x => simp [codePoints, hlow, hcons]
  | case3 x y rest hpair ih => simp [codePoints, hpair, ih]
  | case4 x y rest hpair ih =>
      rw [List.cons_append, List.cons_append, codePoints, if_neg hpair, ← List.cons_append, ih]
      rfl

theorem chars_append_cons {u : UInt16} (hhigh : isHighSurrogate u = false)
    (hlow : isLowSurrogate u = false) (a b : JsString) :
    chars (a ++ u :: b) = chars a ++ charOf u.toNat :: chars b := by
  rw [chars, codePoints_append_cons hhigh hlow, List.map_append, List.map_cons]
  rfl

/-- A code point is a unit of the string or the value of a pair. -/
theorem of_mem_codePoints {s : JsString} {cp : Nat × JsString} (h : cp ∈ codePoints s) :
    (∃ u ∈ s, cp.1 = u.toNat) ∨ 0x10000 ≤ cp.1 := by
  fun_induction codePoints s with
  | case1 => cases h
  | case2 x =>
      obtain rfl := List.mem_singleton.mp h
      exact Or.inl ⟨x, by simp, rfl⟩
  | case3 x y rest hpair ih =>
      rcases List.mem_cons.mp h with rfl | h
      · exact Or.inr (by dsimp only; omega)
      · rcases ih h with ⟨u, hu, heq⟩ | hlarge
        · exact Or.inl ⟨u, by simp [hu], heq⟩
        · exact Or.inr hlarge
  | case4 x y rest hpair ih =>
      rcases List.mem_cons.mp h with rfl | h
      · exact Or.inl ⟨x, by simp, rfl⟩
      · rcases ih h with ⟨u, hu, heq⟩ | hlarge
        · exact Or.inl ⟨u, List.mem_cons_of_mem _ hu, heq⟩
        · exact Or.inr hlarge

/-- A character that is one unit and no replacement is in the text only if the unit is in the string. -/
theorem mem_of_charOf_mem {s : JsString} {u : UInt16} (hvalid : u.toNat.isValidChar)
    (hne : u.toNat ≠ 0xFFFD) (h : charOf u.toNat ∈ chars s) : u ∈ s := by
  obtain ⟨cp, hcp, heq⟩ := List.mem_map.mp h
  have hnat : cp.1 = u.toNat := by
    have htoNat := congrArg Char.toNat heq
    rw [toNat_charOf, toNat_charOf, if_pos hvalid] at htoNat
    split at htoNat
    · exact htoNat
    · exact absurd htoNat.symm hne
  rcases of_mem_codePoints hcp with ⟨v, hv, hvnat⟩ | hlarge
  · have huv : v = u := UInt16.toNat_inj.mp (by rw [← hvnat, hnat])
    exact huv ▸ hv
  · have hlt := u.toNat_lt
    omega

end ESignSoft.Lib.Utf8
