import Mathlib.Algebra.Order.Field.Basic
import Mathlib.Data.List.Basic
import Mathlib.Tactic.Linarith
import Mathlib.Tactic.Ring

/-!
# Laying out items on pages

A pen goes down a page and draws; before a block it may ask for room, and where there is too little it goes
on at the top of the next page.  What a block does is read off its commands, given how much room is known to
be left when it starts.

* `bottom_le_of_fits` — a block that fits into its room stays above the bottom of the page;
* `page_of_unbroken` — a block that asks for nothing beyond its room stays on its page;
* `pairwise_lay` — items come one below the other, or side by side;
* `page_pen_le` — there are no more pages than room was asked for.
-/

namespace ESignSoft.Lib.Pagination

variable {K : Type*} [Field K] [LinearOrder K] [IsStrictOrderedRing K] {α : Type*}

/-- Where a page starts and how far down it may be drawn on. -/
structure Sheet (K : Type*) where
  top : K
  bottom : K

inductive Cmd (K α : Type*)
  /-- A new page, unless so much room is left. -/
  | reserve (needed : K)
  | down (by_ : K)
  | put (item : α)

structure Pen (K : Type*) where
  page : ℕ
  y : K

structure Placed (K α : Type*) where
  page : ℕ
  y : K
  item : α

def Pen.reserve (S : Sheet K) (p : Pen K) (needed : K) : Pen K :=
  if p.y - needed ≥ S.bottom then p else ⟨p.page + 1, S.top⟩

def Pen.down (p : Pen K) (by_ : K) : Pen K := { p with y := p.y - by_ }

/-- What is drawn. -/
def lay (S : Sheet K) : Pen K → List (Cmd K α) → List (Placed K α)
  | _, [] => []
  | p, .reserve needed :: rest => lay S (p.reserve S needed) rest
  | p, .down by_ :: rest => lay S (p.down by_) rest
  | p, .put item :: rest => ⟨p.page, p.y, item⟩ :: lay S p rest

/-- Where the pen ends. -/
def pen (S : Sheet K) : Pen K → List (Cmd K α) → Pen K
  | p, [] => p
  | p, .reserve needed :: rest => pen S (p.reserve S needed) rest
  | p, .down by_ :: rest => pen S (p.down by_) rest
  | p, .put _ :: rest => pen S p rest

/-- The items, without their places. -/
def items : List (Cmd K α) → List α
  | [] => []
  | .reserve _ :: rest => items rest
  | .down _ :: rest => items rest
  | .put item :: rest => item :: items rest

/-- The room left above the bottom. -/
def Pen.room (S : Sheet K) (p : Pen K) : K := p.y - S.bottom

variable {S : Sheet K} {p : Pen K} {cmds cmds' : List (Cmd K α)}

omit [Field K] [LinearOrder K] [IsStrictOrderedRing K] in
theorem items_append : items (cmds ++ cmds') = items cmds ++ items cmds' := by
  fun_induction items cmds with
  | case1 => rfl
  | case2 _ rest ih => exact ih
  | case3 _ rest ih => exact ih
  | case4 item rest ih => exact congrArg (item :: ·) ih

omit [IsStrictOrderedRing K] in
theorem lay_append : lay S p (cmds ++ cmds') = lay S p cmds ++ lay S (pen S p cmds) cmds' := by
  fun_induction lay S p cmds with
  | case1 => rfl
  | case2 _ _ rest ih => exact ih
  | case3 _ _ rest ih => exact ih
  | case4 p item rest ih => exact congrArg (_ :: ·) ih

omit [IsStrictOrderedRing K] in
theorem pen_append : pen S p (cmds ++ cmds') = pen S (pen S p cmds) cmds' := by
  fun_induction pen S p cmds with
  | case1 => rfl
  | case2 _ _ rest ih => exact ih
  | case3 _ _ rest ih => exact ih
  | case4 _ _ rest ih => exact ih

omit [IsStrictOrderedRing K] in
theorem page_le_reserve (needed : K) : p.page ≤ (p.reserve S needed).page := by
  unfold Pen.reserve
  split
  · exact le_rfl
  · exact Nat.le_succ p.page

omit [IsStrictOrderedRing K] in
/-- The pen never goes back to an earlier page. -/
theorem page_le_pen : p.page ≤ (pen S p cmds).page := by
  fun_induction pen S p cmds with
  | case1 => exact le_rfl
  | case2 p needed rest ih => exact (page_le_reserve needed).trans ih
  | case3 p by_ rest ih => exact ih
  | case4 p item rest ih => exact ih

omit [IsStrictOrderedRing K] in
theorem map_item_lay : (lay S p cmds).map Placed.item = items cmds := by
  fun_induction lay S p cmds with
  | case1 => rfl
  | case2 _ _ rest ih => exact ih
  | case3 _ _ rest ih => exact ih
  | case4 p item rest ih => exact congrArg (item :: ·) ih

/-! ## Room -/

theorem reserve_iff {needed : K} : p.y - needed ≥ S.bottom ↔ needed ≤ p.room S := by
  unfold Pen.room
  constructor <;> intro h <;> linarith

omit [LinearOrder K] [IsStrictOrderedRing K] in
theorem room_down (by_ : K) : (p.down by_).room S = p.room S - by_ := by
  unfold Pen.room Pen.down
  dsimp only
  ring

theorem room_reserve_eq {needed : K} :
    (p.reserve S needed).room S = if needed ≤ p.room S then p.room S else S.top - S.bottom := by
  unfold Pen.reserve
  simp only [reserve_iff]
  split <;> rfl

/-- The room known to be left after the commands. -/
def roomAfter : K → List (Cmd K α) → K
  | b, [] => b
  | b, .reserve needed :: rest => roomAfter (max b needed) rest
  | b, .down by_ :: rest => roomAfter (b - by_) rest
  | b, .put _ :: rest => roomAfter b rest

/-- Nothing is drawn beyond the room known to be left, and no page is too short for what is asked; an item reaches
`depth` under the pen. -/
def FitsBy (S : Sheet K) (depth : α → K) : K → List (Cmd K α) → Prop
  | _, [] => True
  | b, .reserve needed :: rest => needed ≤ S.top - S.bottom ∧ FitsBy S depth (max b needed) rest
  | b, .down by_ :: rest => FitsBy S depth (b - by_) rest
  | b, .put item :: rest => depth item ≤ b ∧ FitsBy S depth b rest

/-- The pen itself stays in the room. -/
abbrev Fits (S : Sheet K) (b : K) (cmds : List (Cmd K α)) : Prop := FitsBy S (fun _ => 0) b cmds

variable {depth : α → K}

omit [IsStrictOrderedRing K] in
theorem fits_append {b : K} : FitsBy S depth b (cmds ++ cmds') ↔
    FitsBy S depth b cmds ∧ FitsBy S depth (roomAfter b cmds) cmds' := by
  fun_induction FitsBy S depth b cmds with
  | case1 => exact ⟨fun h => ⟨trivial, h⟩, fun h => h.2⟩
  | case2 b needed rest ih => exact (and_congr_right fun _ => ih).trans and_assoc.symm
  | case3 b by_ rest ih => exact ih
  | case4 b item rest ih => exact (and_congr_right fun _ => ih).trans and_assoc.symm

theorem FitsBy.mono {b b' : K} (h : FitsBy S depth b cmds) (hle : b ≤ b') : FitsBy S depth b' cmds := by
  fun_induction FitsBy S depth b cmds generalizing b' with
  | case1 => trivial
  | case2 b needed rest ih => exact ⟨h.1, ih h.2 (max_le_max_right needed hle)⟩
  | case3 b by_ rest ih => exact ih h (sub_le_sub_right hle by_)
  | case4 b item rest ih => exact ⟨h.1.trans hle, ih h.2 hle⟩

/-- A block that asks for its room fits wherever it starts. -/
theorem fits_reserve {needed b : K} (hpage : needed ≤ S.top - S.bottom) (h : FitsBy S depth needed cmds) :
    FitsBy S depth b (.reserve needed :: cmds) := ⟨hpage, h.mono (le_max_right b needed)⟩

theorem room_reserve {needed : K} (hpage : needed ≤ S.top - S.bottom) {b : K} (hb : b ≤ p.room S) :
    max b needed ≤ (p.reserve S needed).room S := by
  rw [room_reserve_eq]
  split
  · rename_i hroom
    exact max_le hb hroom
  · rename_i hshort
    exact max_le (hb.trans ((not_le.mp hshort).le.trans hpage)) hpage

/-- **A block that fits** into the room that is left stays above the bottom, as far down as its items reach. -/
theorem bottom_le_of_fits {b : K} (h : FitsBy S depth b cmds) (hb : b ≤ p.room S) :
    ∀ q ∈ lay S p cmds, S.bottom ≤ q.y - depth q.item := by
  fun_induction lay S p cmds generalizing b with
  | case1 => simp
  | case2 p needed rest ih => exact ih h.2 (room_reserve h.1 hb)
  | case3 p by_ rest ih =>
      refine ih h ?_
      rw [room_down]
      exact sub_le_sub_right hb by_
  | case4 p item rest ih =>
      intro q hq
      rcases List.mem_cons.mp hq with rfl | hq
      · have hroom : depth item ≤ p.y - S.bottom := h.1.trans hb
        exact le_sub_comm.mp hroom
      · exact ih h.2 hb q hq

/-- The room left after the commands, from the room before them. -/
def roomLeft (S : Sheet K) : K → List (Cmd K α) → K
  | b, [] => b
  | b, .reserve needed :: rest => roomLeft S (if needed ≤ b then b else S.top - S.bottom) rest
  | b, .down by_ :: rest => roomLeft S (b - by_) rest
  | b, .put _ :: rest => roomLeft S b rest

omit [IsStrictOrderedRing K] in
theorem roomLeft_append {b : K} : roomLeft S b (cmds ++ cmds') = roomLeft S (roomLeft S b cmds) cmds' := by
  fun_induction roomLeft S b cmds with
  | case1 => rfl
  | case2 _ _ rest ih => exact ih
  | case3 _ _ rest ih => exact ih
  | case4 _ _ rest ih => exact ih

/-- The room left does not depend on the page. -/
theorem room_pen : (pen S p cmds).room S = roomLeft S (p.room S) cmds := by
  fun_induction pen S p cmds with
  | case1 => rfl
  | case2 p needed rest ih => rw [ih, room_reserve_eq]; rfl
  | case3 p by_ rest ih =>
      rw [ih, room_down]
      rfl
  | case4 p item rest ih => exact ih

/-! ## Page breaks -/

/-- Nothing is asked for beyond the room known to be left. -/
def Unbroken : K → List (Cmd K α) → Prop
  | _, [] => True
  | b, .reserve needed :: rest => needed ≤ b ∧ Unbroken b rest
  | b, .down by_ :: rest => Unbroken (b - by_) rest
  | b, .put _ :: rest => Unbroken b rest

theorem reserve_of_le {needed : K} (h : needed ≤ p.room S) : p.reserve S needed = p := if_pos (reserve_iff.mpr h)

/-- Asking for room goes on to a new page exactly when there is too little. -/
theorem page_reserve_iff {needed : K} : (p.reserve S needed).page = p.page ↔ needed ≤ p.room S := by
  rw [← reserve_iff]
  unfold Pen.reserve
  split
  · rename_i hroom
    exact iff_of_true rfl hroom
  · rename_i hshort
    exact iff_of_false (Nat.succ_ne_self p.page) hshort

/-- **A block that asks for no more** than the room that is left stays on its page. -/
theorem page_of_unbroken {b : K} (h : Unbroken b cmds) (hb : b ≤ p.room S) :
    ∀ q ∈ lay S p cmds, q.page = p.page := by
  fun_induction lay S p cmds generalizing b with
  | case1 => simp
  | case2 p needed rest ih =>
      rw [reserve_of_le (h.1.trans hb)] at ih ⊢
      exact ih h.2 hb
  | case3 p by_ rest ih =>
      refine ih h ?_
      rw [room_down]
      exact sub_le_sub_right hb by_
  | case4 p item rest ih =>
      intro q hq
      rcases List.mem_cons.mp hq with rfl | hq
      · rfl
      · exact ih h hb q hq

/-- How often room is asked for. -/
def reserves : List (Cmd K α) → ℕ
  | [] => 0
  | .reserve _ :: rest => reserves rest + 1
  | .down _ :: rest => reserves rest
  | .put _ :: rest => reserves rest

omit [Field K] [LinearOrder K] [IsStrictOrderedRing K] in
theorem reserves_append : reserves (cmds ++ cmds') = reserves cmds + reserves cmds' := by
  fun_induction reserves cmds with
  | case1 => exact (Nat.zero_add _).symm
  | case2 _ rest ih =>
      rw [List.cons_append, reserves, ih]
      exact Nat.add_right_comm _ _ _
  | case3 _ rest ih => exact ih
  | case4 _ rest ih => exact ih

omit [IsStrictOrderedRing K] in
/-- **Each page but the first** was begun because room was asked for. -/
theorem page_pen_le : (pen S p cmds).page ≤ p.page + reserves cmds := by
  fun_induction pen S p cmds with
  | case1 p => exact le_rfl
  | case2 p needed rest ih =>
      have hone : (p.reserve S needed).page ≤ p.page + 1 := by
        unfold Pen.reserve
        split
        · exact Nat.le_succ p.page
        · exact le_rfl
      rw [reserves]
      omega
  | case3 p by_ rest ih => exact ih
  | case4 p item rest ih => exact ih

/-! ## Reading order -/

variable {r : α → α → Prop}

/-- On a later page, or lower, or on the same line and then as `r` says. -/
def Before (r : α → α → Prop) (a b : Placed K α) : Prop :=
  a.page < b.page ∨ a.page = b.page ∧ (b.y < a.y ∨ b.y = a.y ∧ r a.item b.item)

/-- Items between which the pen does not go down stand as `r` says; `last` is the one before. -/
def Spaced (r : α → α → Prop) : Option α → List (Cmd K α) → Prop
  | _, [] => True
  | last, .reserve _ :: rest => Spaced r last rest
  | _, .down by_ :: rest => 0 < by_ ∧ Spaced r none rest
  | last, .put item :: rest => (∀ a ∈ last, r a item) ∧ Spaced r (some item) rest

/-- The item the pen still stands at. -/
def lastItem : Option α → List (Cmd K α) → Option α
  | last, [] => last
  | last, .reserve _ :: rest => lastItem last rest
  | _, .down _ :: rest => lastItem none rest
  | _, .put item :: rest => lastItem (some item) rest

omit [IsStrictOrderedRing K] in
theorem spaced_append {last : Option α} :
    Spaced r last (cmds ++ cmds') ↔ Spaced r last cmds ∧ Spaced r (lastItem last cmds) cmds' := by
  fun_induction Spaced r last cmds with
  | case1 => exact ⟨fun h => ⟨trivial, h⟩, fun h => h.2⟩
  | case2 last needed rest ih => exact ih
  | case3 last by_ rest ih => exact (and_congr_right fun _ => ih).trans and_assoc.symm
  | case4 last item rest ih => exact (and_congr_right fun _ => ih).trans and_assoc.symm

/-- Nothing is drawn before the pen. -/
theorem below_of_mem_lay {last : Option α} (h : Spaced r last cmds) {q : Placed K α} (hq : q ∈ lay S p cmds) :
    p.page < q.page ∨ p.page = q.page ∧ q.y ≤ p.y := by
  fun_induction lay S p cmds generalizing last with
  | case1 => cases hq
  | case2 p needed rest ih =>
      have hrest := ih h hq
      unfold Pen.reserve at hrest
      split at hrest
      · exact hrest
      · left
        rcases hrest with hlt | heq
        · exact (Nat.lt_succ_self _).trans hlt
        · exact heq.1 ▸ Nat.lt_succ_self _
  | case3 p by_ rest ih =>
      refine (ih h.2 hq).imp_right fun hsame => ⟨hsame.1, hsame.2.trans ?_⟩
      unfold Pen.down
      dsimp only
      linarith [h.1]
  | case4 p item rest ih =>
      rcases List.mem_cons.mp hq with rfl | hq
      · exact Or.inr ⟨rfl, le_rfl⟩
      · exact ih h.2 hq

/-- What is drawn after an item comes after it. -/
theorem before_of_mem_lay (htrans : ∀ a b c, r a b → r b c → r a c) {a : α} (h : Spaced r (some a) cmds)
    {q : Placed K α} (hq : q ∈ lay S p cmds) : Before r ⟨p.page, p.y, a⟩ q := by
  fun_induction lay S p cmds generalizing a with
  | case1 => cases hq
  | case2 p needed rest ih =>
      unfold Pen.reserve at ih hq
      split at ih
      · rename_i hroom
        rw [if_pos hroom] at hq
        exact ih h hq
      · rename_i hshort
        rw [if_neg hshort] at hq
        have hrest : Spaced r (some a) rest := h
        left
        rcases below_of_mem_lay hrest hq with hlt | heq
        · exact (Nat.lt_succ_self _).trans hlt
        · exact heq.1 ▸ Nat.lt_succ_self _
  | case3 p by_ rest ih =>
      refine (below_of_mem_lay h.2 hq).imp_right fun hsame => ⟨hsame.1, Or.inl (lt_of_le_of_lt hsame.2 ?_)⟩
      exact sub_lt_self p.y h.1
  | case4 p item rest ih =>
      have hnext : r a item := h.1 a rfl
      rcases List.mem_cons.mp hq with rfl | hq
      · exact Or.inr ⟨rfl, Or.inr ⟨rfl, hnext⟩⟩
      · refine (ih h.2 hq).imp_right fun hsame => ⟨hsame.1, hsame.2.imp_right fun hline => ⟨hline.1, ?_⟩⟩
        exact htrans a item q.item hnext hline.2

/-- **Reading order**: items come one below the other, or side by side. -/
theorem pairwise_lay (htrans : ∀ a b c, r a b → r b c → r a c) {last : Option α} (h : Spaced r last cmds) :
    (lay S p cmds).Pairwise (Before r) := by
  fun_induction lay S p cmds generalizing last with
  | case1 => exact List.Pairwise.nil
  | case2 p needed rest ih => exact ih h
  | case3 p by_ rest ih => exact ih h.2
  | case4 p item rest ih =>
      exact List.pairwise_cons.mpr ⟨fun q hq => before_of_mem_lay htrans h.2 hq, ih h.2⟩

/-! ## Blocks -/

/-- A block that fits into the room `b`, with its items one below or beside the other and the pen below them
all at the end. -/
structure Block (S : Sheet K) (r : α → α → Prop) (b : K) (cmds : List (Cmd K α)) : Prop where
  fits : Fits S b cmds
  spaced : Spaced r none cmds
  ends : lastItem none cmds = none

omit [Field K] [LinearOrder K] [IsStrictOrderedRing K] in
theorem lastItem_append {last : Option α} :
    lastItem last (cmds ++ cmds') = lastItem (lastItem last cmds) cmds' := by
  fun_induction lastItem last cmds with
  | case1 => rfl
  | case2 _ _ rest ih => exact ih
  | case3 _ _ rest ih => exact ih
  | case4 _ _ rest ih => exact ih

omit [IsStrictOrderedRing K] in
/-- A block may follow another if it fits wherever it starts. -/
theorem Block.append {b : K} (h : Block S r b cmds) (h' : ∀ b, Block S r b cmds') : Block S r b (cmds ++ cmds') where
  fits := fits_append.mpr ⟨h.fits, (h' _).fits⟩
  spaced := spaced_append.mpr ⟨h.spaced, h.ends.symm ▸ (h' b).spaced⟩
  ends := by rw [lastItem_append, h.ends, (h' b).ends]

end ESignSoft.Lib.Pagination
