import Mathlib.Algebra.Group.Nat.Defs
import Mathlib.Data.List.Basic
import Mathlib.Data.List.DropRight

/-!
# ECMAScript strings

A string is the list of its UTF-16 code units: `length`, comparison and regular expressions without
the `u` flag look at code units, `for … of` and `codePointAt` join surrogate pairs.  Two surrogates that
do not form a pair stay separate, as they do in the language.
-/

namespace ESignSoft.Lib.JsText

abbrev JsString := List UInt16

/-- The code units of one character. -/
def utf16 (c : Char) : JsString :=
  if c.toNat < 0x10000 then [UInt16.ofNat c.toNat]
  else [UInt16.ofNat (0xD800 + (c.toNat - 0x10000) / 0x400),
    UInt16.ofNat (0xDC00 + (c.toNat - 0x10000) % 0x400)]

/-- A string literal. -/
def js (s : String) : JsString := s.toList.flatMap utf16

def isHighSurrogate (u : UInt16) : Bool := 0xD800 ≤ u && u ≤ 0xDBFF

def isLowSurrogate (u : UInt16) : Bool := 0xDC00 ≤ u && u ≤ 0xDFFF

/-- The code points of a string, each with the units that spell it, in the order `for … of` visits
them. -/
def codePoints : JsString → List (Nat × JsString)
  | [] => []
  | [u] => [(u.toNat, [u])]
  | u :: v :: rest =>
      if isHighSurrogate u && isLowSurrogate v then
        ((u.toNat - 0xD800) * 0x400 + (v.toNat - 0xDC00) + 0x10000, [u, v]) :: codePoints rest
      else
        (u.toNat, [u]) :: codePoints (v :: rest)

/-- What `trim` removes: white space and line terminators. -/
def isWhiteSpace (u : UInt16) : Bool :=
  (0x09 ≤ u && u ≤ 0x0D) || u == 0x20 || u == 0xA0 || u == 0x1680 || (0x2000 ≤ u && u ≤ 0x200A) ||
    u == 0x2028 || u == 0x2029 || u == 0x202F || u == 0x205F || u == 0x3000 || u == 0xFEFF

/-- `trim`. -/
def trim (s : JsString) : JsString :=
  ((s.dropWhile isWhiteSpace).reverse.dropWhile isWhiteSpace).reverse

/-- `s < t` on strings: by code units, a prefix first. -/
def lt : JsString → JsString → Bool
  | [], [] => false
  | [], _ :: _ => true
  | _ :: _, [] => false
  | u :: s, v :: t => u < v || (u == v && lt s t)

/-- A decimal digit. -/
def isDigit (u : UInt16) : Bool := 0x30 ≤ u && u ≤ 0x39

/-- The number a run of digits spells. -/
def digitsValue (s : JsString) : Nat := s.foldl (fun n u => 10 * n + (u.toNat - 0x30)) 0

/-- The last `width` decimal digits of a number. -/
def padded : Nat → Nat → JsString
  | 0, _ => []
  | width + 1, n => padded width (n / 10) ++ [0x30 + UInt16.ofNat (n % 10)]

/-- Trimming twice trims once. -/
theorem trim_trim (s : JsString) : trim (trim s) = trim s := by
  have hright : (trim s).dropWhile isWhiteSpace = trim s := by
    have hprefix : trim s <+: s.dropWhile isWhiteSpace := List.rdropWhile_prefix isWhiteSpace _
    cases htrim : trim s with
    | nil => rfl
    | cons u rest =>
        obtain ⟨tail, htail⟩ := hprefix
        rw [htrim, List.cons_append] at htail
        have hhead : isWhiteSpace u = false := by
          have hdrop := List.dropWhile_idempotent isWhiteSpace s
          rw [← htail, List.dropWhile_cons] at hdrop
          by_contra hu
          rw [if_pos (by simpa using hu)] at hdrop
          have hlen := congrArg List.length hdrop
          have hle := (List.dropWhile_suffix isWhiteSpace (l := rest ++ tail)).length_le
          simp only [List.length_cons] at hlen
          omega
        rw [List.dropWhile_cons, if_neg (by simp [hhead])]
  calc trim (trim s) = List.rdropWhile isWhiteSpace ((trim s).dropWhile isWhiteSpace) := rfl
    _ = List.rdropWhile isWhiteSpace (List.rdropWhile isWhiteSpace (s.dropWhile isWhiteSpace)) := by
        rw [hright]
        rfl
    _ = trim s := List.rdropWhile_idempotent isWhiteSpace _

/-- Trimming leaves a text as it is exactly when neither its first unit nor its last one is blank. -/
theorem trim_eq_self_iff {s : JsString} :
    trim s = s ↔ (∀ u ∈ s.head?, isWhiteSpace u = false) ∧ ∀ u ∈ s.getLast?, isWhiteSpace u = false := by
  have hleft : s.dropWhile isWhiteSpace = s ↔ ∀ u ∈ s.head?, isWhiteSpace u = false := by
    cases s <;> simp [List.dropWhile_eq_self_iff]
  have hright : List.rdropWhile isWhiteSpace s = s ↔ ∀ u ∈ s.getLast?, isWhiteSpace u = false := by
    cases s using List.reverseRecOn <;> simp [List.rdropWhile_eq_self_iff]
  constructor
  · intro htrim
    -- Both cuts shorten the text, so neither has.
    have hlast := (List.rdropWhile_prefix isWhiteSpace (s.dropWhile isWhiteSpace)).length_le
    have hfirst := (List.dropWhile_suffix isWhiteSpace (l := s)).length_le
    have hlength : (List.rdropWhile isWhiteSpace (s.dropWhile isWhiteSpace)).length = s.length :=
      congrArg List.length htrim
    have hkept : s.dropWhile isWhiteSpace = s :=
      (List.dropWhile_suffix isWhiteSpace).eq_of_length (by omega)
    refine ⟨hleft.mp hkept, hright.mp ?_⟩
    calc List.rdropWhile isWhiteSpace s = List.rdropWhile isWhiteSpace (s.dropWhile isWhiteSpace) := by rw [hkept]
      _ = s := htrim
  · rintro ⟨hfirst, hlast⟩
    calc trim s = List.rdropWhile isWhiteSpace (s.dropWhile isWhiteSpace) := rfl
      _ = List.rdropWhile isWhiteSpace s := by rw [hleft.mpr hfirst]
      _ = s := hright.mpr hlast

/-! ## Printable ASCII -/

/-- A printable ASCII character. -/
def isPrintableAscii (u : UInt16) : Bool := 0x20 ≤ u && u ≤ 0x7E

theorem isPrintableAscii_iff {u : UInt16} :
    isPrintableAscii u = true ↔ 0x20 ≤ u.toNat ∧ u.toNat ≤ 0x7E := by
  simp [isPrintableAscii, UInt16.le_iff_toNat_le]

theorem isHighSurrogate_of_printable {u : UInt16} (h : isPrintableAscii u = true) :
    isHighSurrogate u = false := by
  have hu := (isPrintableAscii_iff.mp h).2
  have hlow : ¬ (0xD800 : UInt16) ≤ u := by
    rw [UInt16.le_iff_toNat_le]
    have : (0xD800 : UInt16).toNat = 0xD800 := rfl
    omega
  simp [isHighSurrogate, hlow]

/-- Where every unit is printable ASCII, every code point is one unit. -/
theorem codePoints_of_printable {s : JsString} (h : ∀ u ∈ s, isPrintableAscii u = true) :
    codePoints s = s.map fun u => (u.toNat, [u]) := by
  fun_induction codePoints s with
  | case1 => rfl
  | case2 u => rfl
  | case3 u v rest hpair ih =>
      rw [isHighSurrogate_of_printable (h u (by simp))] at hpair
      simp at hpair
  | case4 u v rest hpair ih =>
      rw [ih (fun w hw => h w (by simp [hw]))]
      rfl

theorem length_padded (width n : Nat) : (padded width n).length = width := by
  induction width generalizing n with
  | zero => rfl
  | succ width ih => simp [padded, ih]

theorem isDigit_padded (width n : Nat) : ∀ u ∈ padded width n, isDigit u = true := by
  have hdigit : ∀ d, d < 10 → isDigit (0x30 + UInt16.ofNat d) = true := by decide
  induction width generalizing n with
  | zero => simp [padded]
  | succ width ih =>
      intro u hu
      rcases List.mem_append.mp hu with hrest | hlast
      · exact ih (n / 10) u hrest
      · rw [List.mem_singleton.mp hlast]
        exact hdigit (n % 10) (Nat.mod_lt _ (by omega))

theorem digitsValue_padded (width n : Nat) : digitsValue (padded width n) = n % 10 ^ width := by
  have hdigit : ∀ d, d < 10 → (0x30 + UInt16.ofNat d).toNat - 0x30 = d := by decide
  induction width generalizing n with
  | zero => simp [padded, digitsValue, Nat.mod_one]
  | succ width ih =>
      have hstep : digitsValue (padded (width + 1) n) = 10 * digitsValue (padded width (n / 10)) + n % 10 := by
        simp only [padded, digitsValue, List.foldl_append, List.foldl_cons, List.foldl_nil]
        rw [hdigit _ (Nat.mod_lt _ (by omega))]
      rw [hstep, ih, Nat.pow_succ', Nat.mod_mul]
      omega

/-- Enough digits tell which number they spell. -/
theorem padded_inj {width n m : Nat} (hn : n < 10 ^ width) (hm : m < 10 ^ width)
    (h : padded width n = padded width m) : n = m := by
  have hvalue := congrArg digitsValue h
  rwa [digitsValue_padded, digitsValue_padded, Nat.mod_eq_of_lt hn, Nat.mod_eq_of_lt hm] at hvalue

theorem printable_of_isDigit {u : UInt16} (h : isDigit u = true) : isPrintableAscii u = true := by
  simp only [isDigit, isPrintableAscii, Bool.and_eq_true, decide_eq_true_eq, UInt16.le_iff_toNat_le] at h ⊢
  exact ⟨le_trans (by decide) h.1, le_trans h.2 (by decide)⟩

end ESignSoft.Lib.JsText
