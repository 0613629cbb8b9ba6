import ESignSoft.Lib.JsDate
import Mathlib.Data.Int.Log
import Mathlib.Data.Rat.Floor

/-!
# ECMAScript numbers

Numbers are the IEEE 754 doubles, given by their values: `toDouble` rounds a rational to the nearest
one, ties to even, and `ofRat` adds the overflow to infinity.  `stringToNumber` is `Number(text)`.  The
two zeros are one value here, since nothing below tells them apart.

* `toDouble_of_isDouble` — a double rounds to itself;
* `le_nearest` — rounding never crosses a double;
* `IsDouble.exists_int_mul` — a double that is not small is a multiple of a power of two;
* `stringToNumber_natText` — reading back the decimal digits of a number.
-/

namespace ESignSoft.Lib.JsNumber

open ESignSoft.Lib.JsText ESignSoft.Lib.JsDate

inductive Number
  | nan
  | infinite (negative : Bool)
  | finite (q : ℚ)
  deriving DecidableEq

/-- A value of a dynamically typed record, as far as `typeof` and property access tell. -/
inductive JsValue
  | undefined
  | null
  | boolean (b : Bool)
  | number (x : Number)
  | string (s : String)
  | object (property : String → JsValue)

/-! ## Rounding -/

/-- The exponent of the last place of the doubles around a positive number. -/
def lastPlace (q : ℚ) : ℤ := max (Int.log 2 q - 52) (-1074)

/-- The nearest integer, the even one of two. -/
def roundHalfEven (q : ℚ) : ℤ :=
  if q - ⌊q⌋ < 1 / 2 then ⌊q⌋
  else if 1 / 2 < q - ⌊q⌋ then ⌊q⌋ + 1
  else if ⌊q⌋ % 2 = 0 then ⌊q⌋
  else ⌊q⌋ + 1

/-- The double nearest a number that is not negative, without the limit on its exponent. -/
def nearest (q : ℚ) : ℚ := roundHalfEven (q / 2 ^ lastPlace q) * 2 ^ lastPlace q

/-- The double nearest a number, without the limit on its exponent. -/
def toDouble (q : ℚ) : ℚ := if q < 0 then -nearest (-q) else nearest q

/-- The number a mathematical value rounds to. -/
def ofRat (q : ℚ) : Number :=
  if 2 ^ 1024 ≤ |toDouble q| then .infinite (decide (q < 0)) else .finite (toDouble q)

/-- The values of the finite doubles, but for the limit on the exponent. -/
def IsDouble (q : ℚ) : Prop := ∃ m e : ℤ, q = m * 2 ^ e ∧ |m| < 2 ^ 53 ∧ -1074 ≤ e

theorem roundHalfEven_intCast (n : ℤ) : roundHalfEven n = n := by
  simp [roundHalfEven]

theorem floor_le_roundHalfEven (q : ℚ) : ⌊q⌋ ≤ roundHalfEven q := by
  unfold roundHalfEven
  split_ifs <;> omega

theorem roundHalfEven_le_floor_add_one (q : ℚ) : roundHalfEven q ≤ ⌊q⌋ + 1 := by
  unfold roundHalfEven
  split_ifs <;> omega

theorem le_roundHalfEven {n : ℤ} {q : ℚ} (h : (n : ℚ) ≤ q) : n ≤ roundHalfEven q :=
  le_trans (Int.le_floor.mpr h) (floor_le_roundHalfEven q)

theorem roundHalfEven_nonneg {q : ℚ} (h : 0 ≤ q) : 0 ≤ roundHalfEven q :=
  le_roundHalfEven (by simpa using h)

theorem two_zpow_pos (e : ℤ) : (0 : ℚ) < 2 ^ e := zpow_pos two_pos e

theorem two_zpow_add (a b : ℤ) : (2 : ℚ) ^ (a + b) = 2 ^ a * 2 ^ b := zpow_add₀ two_ne_zero a b

/-- An integer times a power of two, written with a smaller power. -/
theorem mul_two_zpow_eq {m e k : ℤ} (h : k ≤ e) :
    (m : ℚ) * 2 ^ e = ((m * 2 ^ (e - k).toNat : ℤ) : ℚ) * 2 ^ k := by
  have hsum : e = ((e - k).toNat : ℤ) + k := by omega
  have hpow : (2 : ℚ) ^ e = 2 ^ ((e - k).toNat : ℤ) * 2 ^ k := by
    rw [← two_zpow_add, ← hsum]
  rw [hpow, zpow_natCast]
  push_cast
  ring

theorem lastPlace_ge (q : ℚ) : -1074 ≤ lastPlace q := le_max_right _ _

theorem zpow_log_le {q : ℚ} (h : 0 < q) : (2 : ℚ) ^ Int.log 2 q ≤ q := by
  exact_mod_cast Int.zpow_log_le_self (by norm_num : 1 < 2) h

theorem lt_zpow_log (q : ℚ) : q < (2 : ℚ) ^ (Int.log 2 q + 1) := by
  exact_mod_cast Int.lt_zpow_succ_log_self (by norm_num : 1 < 2) q

/-- At its last place, a number has at most 53 binary digits before the point. -/
theorem div_lastPlace_lt (q : ℚ) : q / 2 ^ lastPlace q < 2 ^ 53 := by
  have hle : Int.log 2 q + 1 ≤ 53 + lastPlace q := by
    unfold lastPlace
    omega
  rw [div_lt_iff₀ (two_zpow_pos _)]
  calc q < (2 : ℚ) ^ (Int.log 2 q + 1) := lt_zpow_log q
    _ ≤ 2 ^ (53 + lastPlace q) := zpow_le_zpow_right₀ one_le_two hle
    _ = 2 ^ 53 * 2 ^ lastPlace q := by
        rw [two_zpow_add]
        norm_num

theorem nearest_nonneg {q : ℚ} (h : 0 ≤ q) : 0 ≤ nearest q := by
  have hround : 0 ≤ roundHalfEven (q / 2 ^ lastPlace q) :=
    roundHalfEven_nonneg (div_nonneg h (two_zpow_pos _).le)
  exact mul_nonneg (by exact_mod_cast hround) (two_zpow_pos _).le

/-- What rounding gives is a double. -/
theorem isDouble_nearest {q : ℚ} (h : 0 ≤ q) : IsDouble (nearest q) := by
  have hnonneg : 0 ≤ roundHalfEven (q / 2 ^ lastPlace q) :=
    roundHalfEven_nonneg (div_nonneg h (two_zpow_pos _).le)
  have hfloor : ⌊q / 2 ^ lastPlace q⌋ < 2 ^ 53 := by
    rw [Int.floor_lt]
    exact_mod_cast div_lastPlace_lt q
  have hle := roundHalfEven_le_floor_add_one (q / 2 ^ lastPlace q)
  by_cases htop : roundHalfEven (q / 2 ^ lastPlace q) = 2 ^ 53
  · -- Rounded up to the next power of two: one digit, one place higher.
    refine ⟨2 ^ 52, lastPlace q + 1, ?_, by norm_num, by have := lastPlace_ge q; omega⟩
    unfold nearest
    rw [htop, two_zpow_add]
    push_cast
    ring
  · refine ⟨_, lastPlace q, rfl, ?_, lastPlace_ge q⟩
    rw [abs_of_nonneg hnonneg]
    omega

theorem IsDouble.neg {q : ℚ} (h : IsDouble q) : IsDouble (-q) := by
  obtain ⟨m, e, rfl, hm, he⟩ := h
  exact ⟨-m, e, by push_cast; ring, by rwa [abs_neg], he⟩

theorem isDouble_toDouble (q : ℚ) : IsDouble (toDouble q) := by
  unfold toDouble
  split_ifs with h
  · exact (isDouble_nearest (by linarith)).neg
  · exact isDouble_nearest (not_lt.mp h)

theorem abs_toDouble (q : ℚ) : |toDouble q| = nearest |q| := by
  unfold toDouble
  split_ifs with h
  · rw [abs_neg, abs_of_neg h, abs_of_nonneg (nearest_nonneg (by linarith))]
  · rw [abs_of_nonneg (not_lt.mp h), abs_of_nonneg (nearest_nonneg (not_lt.mp h))]

/-- **Rounding never crosses a double.** -/
theorem le_nearest {d q : ℚ} (hd : IsDouble d) (hpos : 0 < q) (h : d ≤ q) : d ≤ nearest q := by
  obtain ⟨m, e, rfl, hm, he⟩ := hd
  by_cases hplace : lastPlace q ≤ e
  · -- The double is a multiple of the last place.
    rw [mul_two_zpow_eq hplace] at h ⊢
    refine mul_le_mul_of_nonneg_right ?_ (two_zpow_pos _).le
    have hdiv : ((m * 2 ^ (e - lastPlace q).toNat : ℤ) : ℚ) ≤ q / 2 ^ lastPlace q :=
      (le_div_iff₀ (two_zpow_pos _)).mpr h
    exact_mod_cast le_roundHalfEven hdiv
  · -- The double has a smaller exponent, and the number has all its digits.
    have hplace' : lastPlace q = Int.log 2 q - 52 := by
      unfold lastPlace at hplace ⊢
      omega
    have hlow : ((2 ^ 52 : ℤ) : ℚ) * 2 ^ lastPlace q ≤ q := by
      have hpow : ((2 ^ 52 : ℤ) : ℚ) * 2 ^ lastPlace q = 2 ^ Int.log 2 q := by
        rw [hplace', show ((2 ^ 52 : ℤ) : ℚ) = 2 ^ (52 : ℤ) by norm_num, ← two_zpow_add]
        congr 1
        omega
      rw [hpow]
      exact zpow_log_le hpos
    have hround : (2 ^ 52 : ℤ) ≤ roundHalfEven (q / 2 ^ lastPlace q) :=
      le_roundHalfEven ((le_div_iff₀ (two_zpow_pos _)).mpr hlow)
    have hm' : (m : ℚ) ≤ 2 ^ 53 := by
      have := (abs_lt.mp hm).2
      exact_mod_cast this.le
    calc (m : ℚ) * 2 ^ e ≤ 2 ^ 53 * 2 ^ e := mul_le_mul_of_nonneg_right hm' (two_zpow_pos _).le
      _ = 2 ^ (53 + e) := by
          rw [two_zpow_add]
          norm_num
      _ ≤ 2 ^ (52 + lastPlace q) := zpow_le_zpow_right₀ one_le_two (by omega)
      _ = ((2 ^ 52 : ℤ) : ℚ) * 2 ^ lastPlace q := by
          rw [two_zpow_add]
          norm_num
      _ ≤ (roundHalfEven (q / 2 ^ lastPlace q) : ℚ) * 2 ^ lastPlace q :=
          mul_le_mul_of_nonneg_right (by exact_mod_cast hround) (two_zpow_pos _).le
      _ = nearest q := rfl

/-- A power of two below a double bounds its exponent from below. -/
theorem IsDouble.exists_int_mul {q : ℚ} (h : IsDouble q) {k : ℤ} (hk : (2 : ℚ) ^ k ≤ |q|) :
    ∃ m : ℤ, q = m * 2 ^ (k - 52) := by
  obtain ⟨m, e, rfl, hm, -⟩ := h
  have hlt : (2 : ℚ) ^ k < 2 ^ (53 + e) := by
    calc (2 : ℚ) ^ k ≤ |(m : ℚ) * 2 ^ e| := hk
      _ = |(m : ℚ)| * 2 ^ e := by rw [abs_mul, abs_of_pos (two_zpow_pos e)]
      _ < 2 ^ 53 * 2 ^ e := by
          refine mul_lt_mul_of_pos_right ?_ (two_zpow_pos e)
          exact_mod_cast hm
      _ = 2 ^ (53 + e) := by
          rw [two_zpow_add]
          norm_num
  have hexp : k < 53 + e := (zpow_lt_zpow_iff_right₀ one_lt_two).mp hlt
  exact ⟨_, mul_two_zpow_eq (by omega)⟩

theorem nearest_of_isDouble {q : ℚ} (h : IsDouble q) (hpos : 0 < q) : nearest q = q := by
  obtain ⟨m, e, rfl, hm, he⟩ := h
  have hlt : (2 : ℚ) ^ Int.log 2 ((m : ℚ) * 2 ^ e) < 2 ^ (53 + e) := by
    calc (2 : ℚ) ^ Int.log 2 ((m : ℚ) * 2 ^ e) ≤ m * 2 ^ e := zpow_log_le hpos
      _ < 2 ^ 53 * 2 ^ e := by
          refine mul_lt_mul_of_pos_right ?_ (two_zpow_pos e)
          have := (abs_lt.mp hm).2
          exact_mod_cast this
      _ = 2 ^ (53 + e) := by
          rw [two_zpow_add]
          norm_num
  have hplace : lastPlace ((m : ℚ) * 2 ^ e) ≤ e := by
    have hlog : Int.log 2 ((m : ℚ) * 2 ^ e) < 53 + e := (zpow_lt_zpow_iff_right₀ one_lt_two).mp hlt
    unfold lastPlace
    omega
  unfold nearest
  generalize lastPlace ((m : ℚ) * 2 ^ e) = place at hplace ⊢
  rw [mul_two_zpow_eq hplace, mul_div_cancel_right₀ _ (two_zpow_pos place).ne', roundHalfEven_intCast]

/-- **A double rounds to itself.** -/
theorem toDouble_of_isDouble {q : ℚ} (h : IsDouble q) : toDouble q = q := by
  unfold toDouble
  rcases lt_trichotomy q 0 with hneg | rfl | hpos
  · rw [if_pos hneg, nearest_of_isDouble h.neg (by linarith), neg_neg]
  · simp [nearest, roundHalfEven]
  · rw [if_neg (not_lt.mpr hpos.le), nearest_of_isDouble h hpos]

/-- Integers of up to 53 binary digits are doubles. -/
theorem isDouble_intCast {n : ℤ} (h : |n| < 2 ^ 53) : IsDouble n := ⟨n, 0, by simp, h, by norm_num⟩

theorem ofRat_intCast {n : ℤ} (h : |n| < 2 ^ 53) : ofRat n = .finite n := by
  have hsmall : ¬ (2 : ℚ) ^ 1024 ≤ |(n : ℚ)| := by
    rw [not_le]
    calc |(n : ℚ)| < 2 ^ 53 := by exact_mod_cast h
      _ ≤ 2 ^ 1024 := pow_le_pow_right₀ one_le_two (by norm_num)
  unfold ofRat
  rw [toDouble_of_isDouble (isDouble_intCast h), if_neg hsmall]

/-! ## Operations -/

/-- `Number.isInteger`. -/
def isInteger : Number → Bool
  | .finite q => q.isInt
  | _ => false

/-- `Math.trunc`, of a finite number. -/
def trunc (q : ℚ) : ℤ := if 0 ≤ q then ⌊q⌋ else ⌈q⌉

/-- `a - b`, of finite numbers. -/
def sub (a b : ℚ) : Number := ofRat (a - b)

/-- `Math.abs(x) < bound`. -/
def absLt (x : Number) (bound : ℚ) : Bool :=
  match x with
  | .finite q => |q| < bound
  | _ => false

/-- `new Date(value)`, for a finite number; `none` is the Invalid Date. -/
def newDate (value : ℚ) : Option ℤ := timeClip (trunc value)

@[simp] theorem trunc_intCast (n : ℤ) : trunc n = n := by
  simp [trunc]

/-! ## Numbers and text -/

/-- The digits of one of the prefixed notations. -/
def digitOf (base : Nat) (u : UInt16) : Option Nat :=
  let value :=
    if 0x30 ≤ u && u ≤ 0x39 then u.toNat - 0x30
    else if 0x61 ≤ u && u ≤ 0x66 then u.toNat - 0x61 + 10
    else if 0x41 ≤ u && u ≤ 0x46 then u.toNat - 0x41 + 10
    else base
  if value < base then some value else none

/-- A run of digits in a base, at least one. -/
def baseInteger (base : Nat) (digits : JsString) : Number :=
  if digits = [] then .nan
  else
    match digits.mapM (digitOf base) with
    | some ds => ofRat (ds.foldl (fun n d => base * n + d) 0 : Nat)
    | none => .nan

/-- The exponent part of a decimal literal, or its absence. -/
def exponentPart : JsString → Option ℤ
  | [] => some 0
  | e :: rest =>
      if e = 0x65 ∨ e = 0x45 then
        let (sign, digits) : ℤ × JsString :=
          match rest with
          | 0x2B :: digits => (1, digits)
          | 0x2D :: digits => (-1, digits)
          | digits => (1, digits)
        if digits ≠ [] ∧ digits.all isDigit then some (sign * digitsValue digits) else none
      else none

/-- An unsigned decimal literal: digits, a point and more digits, an exponent. -/
def decimalLiteral (text : JsString) : Option ℚ :=
  let whole := text.takeWhile isDigit
  let rest := text.dropWhile isDigit
  let (fraction, rest) : JsString × JsString :=
    match rest with
    | 0x2E :: rest => (rest.takeWhile isDigit, rest.dropWhile isDigit)
    | rest => ([], rest)
  if whole = [] ∧ fraction = [] then none
  else
    (exponentPart rest).map fun exponent : ℤ =>
      (digitsValue (whole ++ fraction) : ℚ) * 10 ^ (exponent - (fraction.length : ℤ))

/-- An unsigned decimal literal or `Infinity`, with its sign. -/
def unsignedLiteral (negative : Bool) (text : JsString) : Number :=
  if text = js "Infinity" then .infinite negative
  else
    match decimalLiteral text with
    | some q => ofRat (if negative then -q else q)
    | none => .nan

/-- `Number(text)`. -/
def stringToNumber (text : JsString) : Number :=
  match trim text with
  | [] => .finite 0
  | 0x2B :: rest => unsignedLiteral false rest
  | 0x2D :: rest => unsignedLiteral true rest
  | 0x30 :: mark :: digits =>
      if mark = 0x78 ∨ mark = 0x58 then baseInteger 16 digits
      else if mark = 0x6F ∨ mark = 0x4F then baseInteger 8 digits
      else if mark = 0x62 ∨ mark = 0x42 then baseInteger 2 digits
      else unsignedLiteral false (0x30 :: mark :: digits)
  | literal => unsignedLiteral false literal

/-- The decimal digits of a number. -/
def natText (n : Nat) : JsString := padded (Nat.log 10 n + 1) n

/-- `String(n)` of an integer. -/
def intText (n : ℤ) : JsString := if n < 0 then 0x2D :: natText n.natAbs else natText n.natAbs

/-- Digits are no white space. -/
theorem isWhiteSpace_of_digit {u : UInt16} (h : isDigit u = true) : isWhiteSpace u = false := by
  simp only [isDigit, Bool.and_eq_true, decide_eq_true_eq, UInt16.le_iff_toNat_le] at h
  have hne : ∀ v : UInt16, (0x39 < v.toNat ∨ v.toNat < 0x30) → u ≠ v := by
    rintro v hv rfl
    have h30 : (0x30 : UInt16).toNat = 0x30 := rfl
    have h39 : (0x39 : UInt16).toNat = 0x39 := rfl
    omega
  have h30 : (0x30 : UInt16).toNat = 0x30 := rfl
  have h39 : (0x39 : UInt16).toNat = 0x39 := rfl
  have h0D : (0x0D : UInt16).toNat = 0x0D := rfl
  have h2000 : (0x2000 : UInt16).toNat = 0x2000 := rfl
  have hlow : ¬ u ≤ 0x0D := by
    rw [UInt16.le_iff_toNat_le]
    omega
  have hhigh : ¬ (0x2000 : UInt16) ≤ u := by
    rw [UInt16.le_iff_toNat_le]
    omega
  simp [isWhiteSpace, hlow, hhigh, hne]

theorem trim_digits {s : JsString} (h : ∀ u ∈ s, isDigit u = true) : trim s = s := by
  have hleft : ∀ t : JsString, (∀ u ∈ t, isDigit u = true) → t.dropWhile isWhiteSpace = t := by
    intro t ht
    cases t with
    | nil => rfl
    | cons u t => rw [List.dropWhile_cons, if_neg (by simp [isWhiteSpace_of_digit (ht u (by simp))])]
  unfold trim
  rw [hleft s h, hleft s.reverse (fun u hu => h u (List.mem_reverse.mp hu)), List.reverse_reverse]

/-- A run of digits is read as the number it spells, rounded. -/
theorem stringToNumber_digits {s : JsString} (hne : s ≠ []) (h : ∀ u ∈ s, isDigit u = true) :
    stringToNumber s = ofRat (digitsValue s) := by
  have hliteral : unsignedLiteral false s = ofRat (digitsValue s) := by
    have hword : s ≠ js "Infinity" := by
      rintro rfl
      exact absurd (h 0x49 (by decide)) (by decide)
    have hall : s.takeWhile isDigit = s := by
      rw [List.takeWhile_eq_self_iff]
      exact h
    have hnone : s.dropWhile isDigit = [] := by
      rw [List.dropWhile_eq_nil_iff]
      exact h
    simp [unsignedLiteral, hword, decimalLiteral, hall, hnone, hne, exponentPart]
  unfold stringToNumber
  rw [trim_digits h]
  split
  · exact absurd rfl hne
  · exact absurd (h 0x2B (by simp)) (by decide)
  · exact absurd (h 0x2D (by simp)) (by decide)
  · rename_i mark digits
    have hmark : isDigit mark = true := h mark (by simp)
    have hx : ∀ v : UInt16, isDigit v = false → mark ≠ v := by
      rintro v hv rfl
      rw [hmark] at hv
      cases hv
    rw [if_neg (by simp [hx 0x78 rfl, hx 0x58 rfl]), if_neg (by simp [hx 0x6F rfl, hx 0x4F rfl]),
      if_neg (by simp [hx 0x62 rfl, hx 0x42 rfl])]
    exact hliteral
  · exact hliteral

theorem digitsValue_natText (n : Nat) : digitsValue (natText n) = n := by
  rw [natText, digitsValue_padded]
  exact Nat.mod_eq_of_lt (Nat.lt_pow_succ_log_self (by omega) n)

/-- **The decimal digits of a number are read back as the number.** -/
theorem stringToNumber_natText {n : Nat} (h : n < 2 ^ 53) : stringToNumber (natText n) = .finite n := by
  have hne : natText n ≠ [] := by
    intro hnil
    have hlen := length_padded (Nat.log 10 n + 1) n
    rw [show padded (Nat.log 10 n + 1) n = natText n from rfl, hnil] at hlen
    simp at hlen
  rw [stringToNumber_digits hne (isDigit_padded _ _), digitsValue_natText]
  have habs : |(n : ℤ)| < 2 ^ 53 := by
    rw [Nat.abs_cast]
    exact_mod_cast h
  exact_mod_cast ofRat_intCast habs

theorem isDouble_of_ofRat {q value : ℚ} (h : ofRat q = .finite value) : IsDouble value := by
  unfold ofRat at h
  split at h
  · cases h
  · obtain rfl := Number.finite.inj h
    exact isDouble_toDouble q

/-- **What a text is read as is a double.** -/
theorem isDouble_stringToNumber {text : JsString} {value : ℚ} (h : stringToNumber text = .finite value) :
    IsDouble value := by
  have hbase : ∀ base digits, baseInteger base digits = .finite value → IsDouble value := by
    intro base digits h
    unfold baseInteger at h
    split at h
    · cases h
    · split at h
      · exact isDouble_of_ofRat h
      · cases h
  have hliteral : ∀ negative literal, unsignedLiteral negative literal = .finite value → IsDouble value := by
    intro negative literal h
    unfold unsignedLiteral at h
    split at h
    · cases h
    · split at h
      · exact isDouble_of_ofRat h
      · cases h
  unfold stringToNumber at h
  split at h
  · obtain rfl := Number.finite.inj h
    exact ⟨0, 0, by simp, by norm_num, by norm_num⟩
  · exact hliteral _ _ h
  · exact hliteral _ _ h
  · split at h
    · exact hbase _ _ h
    · split at h
      · exact hbase _ _ h
      · split at h
        · exact hbase _ _ h
        · exact hliteral _ _ h
  · exact hliteral _ _ h

/-- White space, a prefix and an exponent are read as the language reads them. -/
example :
    stringToNumber (js " 99000.00 ") = .finite 99000 ∧ stringToNumber (js "0x1f") = .finite 31 ∧
      stringToNumber (js "") = .finite 0 ∧ stringToNumber (js "-1e3") = .finite (-1000) ∧
      stringToNumber (js "12abc") = .nan := by
  decide +kernel

end ESignSoft.Lib.JsNumber
