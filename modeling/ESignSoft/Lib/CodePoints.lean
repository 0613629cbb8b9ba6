import ESignSoft.Lib.Utf8

/-!
# Strings as lists of code points

`codePoints` pairs a high surrogate with a low one that follows it and leaves every other unit alone.

* `flatMap_codePoints` — the units of the code points are those of the string;
* `codePoints_append` — two strings put together, unless the seam falls inside a pair;
* `codePoints_flatMap` — code points that hold no surrogate of their own are read back as they are.
-/

namespace ESignSoft.Lib.JsText

open ESignSoft.Lib.Utf8

/-- How a code point is spelled: by one unit, or by a pair of surrogates. -/
inductive Spelled : Nat × JsString → Prop
  | single (u : UInt16) : Spelled (u.toNat, [u])
  | pair (u v : UInt16) (hhigh : isHighSurrogate u = true) (hlow : isLowSurrogate v = true) :
      Spelled ((u.toNat - 0xD800) * 0x400 + (v.toNat - 0xDC00) + 0x10000, [u, v])

/-- The seam between two strings falls inside a pair of surrogates. -/
def Splits (a b : JsString) : Prop :=
  ∃ u ∈ a.getLast?, ∃ v ∈ b.head?, isHighSurrogate u = true ∧ isLowSurrogate v = true

theorem spelled_of_mem {s : JsString} {ch : Nat × JsString} (h : ch ∈ codePoints s) :
    Spelled ch ∧ ∀ u ∈ ch.2, u ∈ s := by
  fun_induction codePoints s with
  | case1 => cases h
  | case2 x =>
      obtain rfl := List.mem_singleton.mp h
      exact ⟨.single x, fun u hu => hu⟩
  | case3 x y rest hpair ih =>
      simp only [Bool.and_eq_true] at hpair
      rcases List.mem_cons.mp h with rfl | h
      · exact ⟨.pair x y hpair.1 hpair.2, fun u hu => by simpa using List.mem_append_left rest hu⟩
      · exact ⟨(ih h).1, fun u hu => by simp [(ih h).2 u hu]⟩
  | case4 x y rest hpair ih =>
      rcases List.mem_cons.mp h with rfl | h
      · exact ⟨.single x, fun u hu => by simp [List.mem_singleton.mp hu]⟩
      · exact ⟨(ih h).1, fun u hu => List.mem_cons_of_mem x ((ih h).2 u hu)⟩

/-- The units of the code points are those of the string. -/
theorem flatMap_codePoints (s : JsString) : (codePoints s).flatMap Prod.snd = s := by
  fun_induction codePoints s with
  | case1 => rfl
  | case2 x => rfl
  | case3 x y rest hpair ih => simp [ih]
  | case4 x y rest hpair ih => simp [ih]

/-- **Two strings put together** have the code points of the one and the other, unless the seam falls
inside a pair. -/
theorem codePoints_append {a b : JsString} (h : ¬ Splits a b) :
    codePoints (a ++ b) = codePoints a ++ codePoints b := by
  fun_induction codePoints a with
  | case1 => rfl
  | case2 x =>
      cases b with
      | nil => rfl
      | cons v rest =>
          have hapart : ¬ (isHighSurrogate x && isLowSurrogate v) = true := by
            rw [Bool.and_eq_true]
            exact fun hpair => h ⟨x, by simp, v, by simp, hpair⟩
          rw [List.singleton_append, codePoints, if_neg hapart]
          rfl
  | case3 x y rest hpair ih =>
      -- After a pair the string may end, and then no seam is left to fall inside one.
      have hrest : ¬ Splits rest b := by
        rintro ⟨u, hu, v, hv, hsplit⟩
        refine h ⟨u, ?_, v, hv, hsplit⟩
        cases rest with
        | nil => cases hu
        | cons z rest => simpa using hu
      simp [codePoints, hpair, ih hrest]
  | case4 x y rest hpair ih =>
      have hrest : ¬ Splits (y :: rest) b := by
        rintro ⟨u, hu, hsplit⟩
        exact h ⟨u, by simpa using hu, hsplit⟩
      rw [List.cons_append, List.cons_append, codePoints, if_neg hpair, ← List.cons_append, ih hrest]
      rfl

/-- **Code points that hold no surrogate of their own** are read back as they are. -/
theorem codePoints_flatMap {l : List (Nat × JsString)} (h : ∀ ch ∈ l, Spelled ch)
    (hown : ∀ ch ∈ l, ch.1 < 0xD800 ∨ 0xDFFF < ch.1) : codePoints (l.flatMap Prod.snd) = l := by
  induction l with
  | nil => rfl
  | cons ch l ih =>
      have ih := ih (fun c hc => h c (List.mem_cons_of_mem ch hc))
        fun c hc => hown c (List.mem_cons_of_mem ch hc)
      have hrange := hown ch List.mem_cons_self
      cases h ch List.mem_cons_self with
      | single u =>
          have hhigh : isHighSurrogate u = false := by
            rw [Bool.eq_false_iff, Ne, isHighSurrogate_iff]
            omega
          rw [List.flatMap_cons, List.singleton_append, codePoints_cons_of_not_high hhigh, ih]
      | pair u v hhigh hlow =>
          rw [List.flatMap_cons]
          simp [codePoints, hhigh, hlow, ih]

end ESignSoft.Lib.JsText
