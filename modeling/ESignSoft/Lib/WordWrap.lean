import Mathlib.Data.List.Chain

/-!
# Breaking a text into lines

A text is split at its runs of blanks, and the words are put on a line as long as they fit; the first that
does not starts the next.  A word that fits on no line has one to itself.

* `flatMap_words_wrap` — the lines hold the words of the text, each once and in order;
* `stands_of_mem_wrap` — a line fits, or is one word;
* `isChain_wrap` — no word would have fitted on the line before its own.
-/

namespace ESignSoft.Lib.WordWrap

variable {α : Type*} (isBlank : α → Bool)

/-! ## Words -/

/-- The pieces of the rest of a text; `blank` says that a blank was last, and `piece` is what came after. -/
def splitFrom (blank : Bool) (piece : List α) : List α → List (List α)
  | [] => [piece]
  | u :: rest =>
      if isBlank u then
        if blank then splitFrom true piece rest else piece :: splitFrom true [] rest
      else splitFrom false (piece ++ [u]) rest

/-- The pieces between the runs of blanks.  A run at the start or at the end has an empty piece before or
after it. -/
def split (s : List α) : List (List α) := splitFrom isBlank false [] s

/-- The pieces that are not empty. -/
def words (s : List α) : List (List α) := (split isBlank s).filter (!·.isEmpty)

variable {isBlank} {s t piece : List α} {blank : Bool} {u : α}

theorem not_blank_of_mem_splitFrom (h : ∀ u ∈ piece, isBlank u = false) :
    ∀ word ∈ splitFrom isBlank blank piece s, ∀ u ∈ word, isBlank u = false := by
  fun_induction splitFrom isBlank blank piece s with
  | case1 => simpa using h
  | case2 piece u rest hu ih => exact ih h
  | case3 blank piece u rest hu hblank ih =>
      rw [List.forall_mem_cons]
      exact ⟨h, ih fun u hu => absurd hu List.not_mem_nil⟩
  | case4 blank piece u rest hu ih =>
      refine ih fun v hv => ?_
      rcases List.mem_append.mp hv with hv | hv
      · exact h v hv
      · rw [List.mem_singleton.mp hv]
        exact Bool.eq_false_iff.mpr hu

/-- No piece holds a blank. -/
theorem not_blank_of_mem_split : ∀ word ∈ split isBlank s, ∀ u ∈ word, isBlank u = false :=
  not_blank_of_mem_splitFrom fun _ hu => absurd hu List.not_mem_nil

theorem forall_mem_splitFrom {Q : α → Prop} (hpiece : ∀ u ∈ piece, Q u) (h : ∀ u ∈ s, Q u) :
    ∀ word ∈ splitFrom isBlank blank piece s, ∀ u ∈ word, Q u := by
  fun_induction splitFrom isBlank blank piece s with
  | case1 => simpa using hpiece
  | case2 piece u rest hu ih => exact ih hpiece (List.forall_mem_cons.mp h).2
  | case3 blank piece u rest hu hblank ih =>
      rw [List.forall_mem_cons]
      exact ⟨hpiece, ih (fun u hu => absurd hu List.not_mem_nil) (List.forall_mem_cons.mp h).2⟩
  | case4 blank piece u rest hu ih =>
      rw [List.forall_mem_cons] at h
      refine ih (List.forall_mem_append.mpr ⟨hpiece, ?_⟩) h.2
      exact List.forall_mem_singleton.mpr h.1

/-- The pieces are made of the text. -/
theorem forall_mem_split {Q : α → Prop} (h : ∀ u ∈ s, Q u) : ∀ word ∈ split isBlank s, ∀ u ∈ word, Q u :=
  forall_mem_splitFrom (fun _ hu => absurd hu List.not_mem_nil) h

theorem length_splitFrom_le : (splitFrom isBlank blank piece s).length ≤ s.length + 1 := by
  fun_induction splitFrom isBlank blank piece s with
  | case1 => exact le_rfl
  | case2 piece u rest hu ih => exact ih.trans (Nat.le_succ _)
  | case3 blank piece u rest hu hblank ih => exact Nat.succ_le_succ ih
  | case4 blank piece u rest hu ih => exact ih.trans (Nat.le_succ _)

theorem splitFrom_of_not_blank (h : ∀ u ∈ s, isBlank u = false) :
    splitFrom isBlank blank piece s = [piece ++ s] := by
  fun_induction splitFrom isBlank blank piece s with
  | case1 => rw [List.append_nil]
  | case2 piece u rest hu ih => exact absurd hu (Bool.eq_false_iff.mp (h u List.mem_cons_self))
  | case3 blank piece u rest hu hblank ih => exact absurd hu (Bool.eq_false_iff.mp (h u List.mem_cons_self))
  | case4 blank piece u rest hu ih =>
      rw [ih (List.forall_mem_cons.mp h).2, List.append_assoc]
      rfl

theorem words_of_not_blank (h : ∀ u ∈ s, isBlank u = false) : words isBlank s = [s].filter (!·.isEmpty) := by
  unfold words split
  rw [splitFrom_of_not_blank h]
  rfl

/-- A run of blanks that goes on adds no word. -/
theorem filter_splitFrom_true :
    (splitFrom isBlank true [] t).filter (!·.isEmpty) = words isBlank t := by
  cases t with
  | nil => rfl
  | cons u rest =>
      unfold words split
      rw [splitFrom, splitFrom]
      split
      · rfl
      · rfl

theorem filter_splitFrom_append (hu : isBlank u = true) (hpiece : blank = true → piece = []) :
    (splitFrom isBlank blank piece (s ++ u :: t)).filter (!·.isEmpty) =
      (splitFrom isBlank blank piece s).filter (!·.isEmpty) ++ words isBlank t := by
  fun_induction splitFrom isBlank blank piece s with
  | case1 blank piece =>
      rw [List.nil_append, splitFrom, if_pos hu]
      split
      · rename_i hblank
        rw [hpiece hblank, filter_splitFrom_true]
        rfl
      · rw [← List.singleton_append, List.filter_append, filter_splitFrom_true]
  | case2 piece v rest hv ih =>
      rw [List.cons_append, splitFrom, if_pos hv, if_pos rfl]
      exact ih hpiece
  | case3 blank piece v rest hv hblank ih =>
      rw [List.cons_append, splitFrom, if_pos hv, if_neg hblank, ← List.singleton_append, List.filter_append,
        ih fun _ => rfl, ← List.append_assoc, ← List.filter_append, List.singleton_append]
  | case4 blank piece v rest hv ih =>
      rw [List.cons_append, splitFrom, if_neg hv]
      exact ih fun hfalse => absurd hfalse Bool.false_ne_true

/-- The words before a blank, and those after it. -/
theorem words_append_blank (hu : isBlank u = true) :
    words isBlank (s ++ u :: t) = words isBlank s ++ words isBlank t :=
  filter_splitFrom_append hu fun hfalse => absurd hfalse Bool.false_ne_true

/-- Taking the pieces apart once more changes nothing. -/
theorem flatMap_words_of_not_blank {pieces : List (List α)} (h : ∀ word ∈ pieces, ∀ u ∈ word, isBlank u = false) :
    pieces.flatMap (words isBlank) = pieces.filter (!·.isEmpty) := by
  induction pieces with
  | nil => rfl
  | cons word rest ih =>
      rw [List.forall_mem_cons] at h
      rw [List.flatMap_cons, words_of_not_blank h.1, ih h.2, ← List.filter_append, List.singleton_append]

/-! ## Lines -/

variable (fits : List α → Bool) (gap : α)

/-- The line with one more word. -/
def candidate (line word : List α) : List α := if !line.isEmpty then line ++ gap :: word else word

/-- The lines, where `line` is what already stands on the current one. -/
def wrap (line : List α) : List (List α) → List (List α)
  | [] => if !line.isEmpty then [line] else []
  | word :: rest =>
      if !fits (candidate gap line word) && !line.isEmpty then line :: wrap word rest
      else wrap (candidate gap line word) rest

variable {fits gap} {line : List α} {pieces : List (List α)}

theorem eq_nil_of_isEmpty (h : ¬ (!line.isEmpty) = true) : line = [] := by
  simpa using h

theorem words_candidate (hgap : isBlank gap = true) {word : List α} :
    words isBlank (candidate gap line word) = words isBlank line ++ words isBlank word := by
  unfold candidate
  split
  · exact words_append_blank hgap
  · rename_i hempty
    rw [eq_nil_of_isEmpty hempty]
    rfl

/-- **No word is lost**, doubled or moved. -/
theorem flatMap_words_wrap (hgap : isBlank gap = true) :
    (wrap fits gap line pieces).flatMap (words isBlank) =
      words isBlank line ++ pieces.flatMap (words isBlank) := by
  fun_induction wrap fits gap line pieces with
  | case1 line h => simp
  | case2 line h =>
      rw [eq_nil_of_isEmpty h]
      rfl
  | case3 line word rest h ih => rw [List.flatMap_cons, ih, List.flatMap_cons]
  | case4 line word rest h ih => rw [ih, words_candidate hgap, List.flatMap_cons, List.append_assoc]

theorem words_wrap_split (hgap : isBlank gap = true) :
    (wrap fits gap [] (split isBlank s)).flatMap (words isBlank) = words isBlank s := by
  rw [flatMap_words_wrap hgap, flatMap_words_of_not_blank not_blank_of_mem_split]
  rfl

/-- A line is ended by a word, or by the end of the text. -/
theorem length_wrap_le : (wrap fits gap line pieces).length ≤ pieces.length + 1 := by
  fun_induction wrap fits gap line pieces with
  | case1 line h => exact le_rfl
  | case2 line h => exact Nat.zero_le _
  | case3 line word rest h ih => exact Nat.succ_le_succ ih
  | case4 line word rest h ih => exact ih.trans (Nat.le_succ _)

/-- A text has no more lines than characters, but for an empty one at either end. -/
theorem length_wrap_split_le : (wrap fits gap [] (split isBlank s)).length ≤ s.length + 2 :=
  length_wrap_le.trans (Nat.succ_le_succ length_splitFrom_le)

theorem forall_mem_candidate {Q : α → Prop} (hgap : Q gap) {word : List α} (hline : ∀ u ∈ line, Q u)
    (hword : ∀ u ∈ word, Q u) : ∀ u ∈ candidate gap line word, Q u := by
  unfold candidate
  split
  · exact List.forall_mem_append.mpr ⟨hline, List.forall_mem_cons.mpr ⟨hgap, hword⟩⟩
  · exact hword

/-- The lines are made of the pieces and the gap between them. -/
theorem forall_mem_wrap {Q : α → Prop} (hgap : Q gap) (hline : ∀ u ∈ line, Q u)
    (h : ∀ word ∈ pieces, ∀ u ∈ word, Q u) : ∀ l ∈ wrap fits gap line pieces, ∀ u ∈ l, Q u := by
  fun_induction wrap fits gap line pieces with
  | case1 line hempty => simpa using hline
  | case2 line hempty => simp
  | case3 line word rest hbreak ih =>
      rw [List.forall_mem_cons] at h
      rw [List.forall_mem_cons]
      exact ⟨hline, ih h.1 h.2⟩
  | case4 line word rest hbreak ih =>
      rw [List.forall_mem_cons] at h
      exact ih (forall_mem_candidate hgap hline h.1) h.2

/-- What may stand on one line: what fits, or one word. -/
def Stands (isBlank : α → Bool) (fits : List α → Bool) (l : List α) : Prop :=
  fits l = true ∨ ∀ u ∈ l, isBlank u = false

theorem stands_of_mem_wrap (hline : Stands isBlank fits line)
    (h : ∀ word ∈ pieces, ∀ u ∈ word, isBlank u = false) : ∀ l ∈ wrap fits gap line pieces, Stands isBlank fits l := by
  fun_induction wrap fits gap line pieces with
  | case1 line hempty => simpa using hline
  | case2 line hempty => simp
  | case3 line word rest hbreak ih =>
      rw [List.forall_mem_cons] at h
      rw [List.forall_mem_cons]
      exact ⟨hline, ih (Or.inr h.1) h.2⟩
  | case4 line word rest hbreak ih =>
      rw [List.forall_mem_cons] at h
      refine ih ?_ h.2
      -- The word joins a line it fits on, or starts one.
      rw [Bool.not_eq_true, Bool.and_eq_false_iff, Bool.not_eq_false'] at hbreak
      rcases hbreak with hfits | hempty
      · exact Or.inl hfits
      · right
        unfold candidate
        rw [hempty, if_neg Bool.false_ne_true]
        exact h.1

/-- The first line begins with the current one. -/
theorem prefix_head_wrap {l : List α} (h : l ∈ (wrap fits gap line pieces).head?) : line <+: l := by
  fun_induction wrap fits gap line pieces with
  | case1 line hempty =>
      obtain rfl := Option.some.inj h
      exact List.prefix_refl line
  | case2 line hempty => exact absurd h (Option.not_mem_none l)
  | case3 line word rest hbreak ih =>
      obtain rfl := Option.some.inj h
      exact List.prefix_refl line
  | case4 line word rest hbreak ih =>
      refine List.IsPrefix.trans ?_ (ih h)
      unfold candidate
      split
      · exact List.prefix_append line _
      · rename_i hempty
        rw [eq_nil_of_isEmpty hempty]
        exact List.nil_prefix

/-- **Lines are broken only where they must be**: the next begins with a word that did not fit. -/
theorem isChain_wrap :
    (wrap fits gap line pieces).IsChain fun l next => ∃ word, word <+: next ∧ word ∈ pieces ∧
      fits (l ++ gap :: word) = false := by
  fun_induction wrap fits gap line pieces with
  | case1 line h => exact List.isChain_singleton _
  | case2 line h => exact List.isChain_nil
  | case3 line word rest h ih =>
      rw [Bool.and_eq_true, Bool.not_eq_true'] at h
      have hfull : fits (line ++ gap :: word) = false := by
        have hcandidate := h.1
        unfold candidate at hcandidate
        rwa [if_pos h.2] at hcandidate
      rw [List.isChain_cons]
      refine ⟨fun next hnext => ⟨word, prefix_head_wrap hnext, List.mem_cons_self, hfull⟩, ?_⟩
      exact ih.imp fun l next ⟨w, hw, hmem, hfits⟩ => ⟨w, hw, List.mem_cons_of_mem _ hmem, hfits⟩
  | case4 line word rest h ih =>
      exact ih.imp fun l next ⟨w, hw, hmem, hfits⟩ => ⟨w, hw, List.mem_cons_of_mem _ hmem, hfits⟩

end ESignSoft.Lib.WordWrap
