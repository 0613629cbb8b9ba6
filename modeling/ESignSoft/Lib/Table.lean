import Mathlib.Data.List.Forall2
import Mathlib.Data.List.Nodup
import Mathlib.Data.List.Count

/-!
# Conditional updates of a table

A table is the list of its rows.  `updateMany cond set rows` is the one-statement conditional update
`UPDATE … SET … WHERE …`: every row that meets the condition is rewritten, every other row is left
alone, and no row is added, removed or moved.  `matchCount` is the number of rows it rewrites, which is
what a caller that uses the update as a compare-and-set looks at.

The lemmas are of two kinds: what holds of every row afterwards, and how the row at each position is
related to the row that was there before (`List.Forall₂`), which is the form in which facts about the
history of one row are carried along a run.
-/

namespace ESignSoft.Lib.Table

variable {ρ κ : Type*}

/-- One row under `UPDATE … SET set WHERE cond`. -/
def updateRow (cond : ρ → Bool) (set : ρ → ρ) (r : ρ) : ρ := if cond r then set r else r

/-- `UPDATE … SET set WHERE cond`, as one atomic statement. -/
def updateMany (cond : ρ → Bool) (set : ρ → ρ) (rows : List ρ) : List ρ :=
  rows.map fun r => if cond r then set r else r

/-- How many rows the condition selects. -/
def matchCount (cond : ρ → Bool) (rows : List ρ) : Nat := rows.countP cond

@[simp] theorem updateMany_nil (cond : ρ → Bool) (set : ρ → ρ) :
    updateMany cond set [] = [] := rfl

@[simp] theorem updateMany_cons (cond : ρ → Bool) (set : ρ → ρ) (r : ρ) (rows : List ρ) :
    updateMany cond set (r :: rows) = (if cond r then set r else r) :: updateMany cond set rows := rfl

theorem mem_updateMany {cond : ρ → Bool} {set : ρ → ρ} {rows : List ρ} {r' : ρ} :
    r' ∈ updateMany cond set rows ↔ ∃ r ∈ rows, (if cond r then set r else r) = r' := by
  simp [updateMany]

/-- A column the update does not write reads the same afterwards, row by row. -/
theorem map_updateMany_eq {cond : ρ → Bool} {set : ρ → ρ} (col : ρ → κ)
    (hset : ∀ r, col (set r) = col r) (rows : List ρ) :
    (updateMany cond set rows).map col = rows.map col := by
  induction rows with
  | nil => rfl
  | cons r rows ih =>
      by_cases hr : cond r = true
      · simp [hr, hset, ih]
      · simp [hr, ih]

/-- What every row satisfies, every row still satisfies once the rewritten ones do. -/
theorem forall_mem_updateMany {cond : ρ → Bool} {set : ρ → ρ} {rows : List ρ} {Q : ρ → Prop}
    (hrows : ∀ r ∈ rows, Q r) (hset : ∀ r ∈ rows, cond r = true → Q r → Q (set r)) :
    ∀ r ∈ updateMany cond set rows, Q r := by
  intro r' hr'
  obtain ⟨r, hr, rfl⟩ := mem_updateMany.mp hr'
  split
  · exact hset r hr ‹_› (hrows r hr)
  · exact hrows r hr

@[simp] theorem updateRow_of_false {cond : ρ → Bool} {set : ρ → ρ} {r : ρ} (h : cond r = false) :
    updateRow cond set r = r := by
  simp [updateRow, h]

@[simp] theorem updateRow_of_true {cond : ρ → Bool} {set : ρ → ρ} {r : ρ} (h : cond r = true) :
    updateRow cond set r = set r := by
  simp [updateRow, h]

/-- Each row is related to its predecessor when the rewritten rows are. -/
theorem forall₂_updateMany {cond : ρ → Bool} {set : ρ → ρ} {R : ρ → ρ → Prop} {rows : List ρ}
    (hrefl : ∀ r ∈ rows, R r r) (hset : ∀ r ∈ rows, cond r = true → R r (set r)) :
    List.Forall₂ R rows (updateMany cond set rows) := by
  induction rows with
  | nil => exact List.Forall₂.nil
  | cons r rows ih =>
      refine List.Forall₂.cons ?_ (ih (fun q hq => hrefl q (by simp [hq]))
        (fun q hq => hset q (by simp [hq])))
      show R r (if cond r = true then set r else r)
      split
      · exact hset r (by simp) ‹_›
      · exact hrefl r (by simp)

/-- The condition that selects the row with one key selects at most one row. -/
theorem matchCount_key_le_one [DecidableEq κ] {key : ρ → κ} {rows : List ρ}
    (hkeys : (rows.map key).Nodup) (k : κ) (cond : ρ → Bool) :
    matchCount (fun r => decide (key r = k) && cond r) rows ≤ 1 := by
  have hkey : matchCount (fun r => decide (key r = k) && cond r) rows
      ≤ rows.countP (fun r => decide (key r = k)) :=
    List.countP_mono_left (by simp +contextual)
  have hone : rows.countP (fun r => decide (key r = k)) = (rows.map key).count k := by
    simp [List.count, List.countP_map, Function.comp_def, beq_eq_decide]
  calc matchCount (fun r => decide (key r = k) && cond r) rows
      ≤ rows.countP (fun r => decide (key r = k)) := hkey
    _ = (rows.map key).count k := hone
    _ ≤ 1 := List.nodup_iff_count_le_one.mp hkeys k

/-- A compare-and-set that reports one row rewrote some row of the table. -/
theorem exists_of_matchCount_pos {cond : ρ → Bool} {rows : List ρ} (h : 0 < matchCount cond rows) :
    ∃ r ∈ rows, cond r = true :=
  List.countP_pos_iff.mp h

theorem matchCount_pos_of_mem {cond : ρ → Bool} {rows : List ρ} {r : ρ} (hr : r ∈ rows)
    (hcond : cond r = true) : 0 < matchCount cond rows :=
  List.countP_pos_iff.mpr ⟨r, hr, hcond⟩

/-- The row at a position before and after, for two tables whose rows are related one by one. -/
theorem exists_of_forall₂_left {R : ρ → ρ → Prop} {rows rows' : List ρ}
    (h : List.Forall₂ R rows rows') {r : ρ} (hr : r ∈ rows) : ∃ r' ∈ rows', R r r' := by
  induction h with
  | nil => cases hr
  | cons hhead _ ih =>
      rcases List.mem_cons.mp hr with rfl | hmem
      · exact ⟨_, by simp, hhead⟩
      · obtain ⟨r', hr', hR⟩ := ih hmem
        exact ⟨r', by simp [hr'], hR⟩

theorem exists_of_forall₂_right {R : ρ → ρ → Prop} {rows rows' : List ρ}
    (h : List.Forall₂ R rows rows') {r' : ρ} (hr' : r' ∈ rows') : ∃ r ∈ rows, R r r' := by
  have hflip : List.Forall₂ (fun a b => R b a) rows' rows := h.flip
  exact exists_of_forall₂_left hflip hr'

/-- A column that every row shares with its predecessor is the same column. -/
theorem map_eq_of_forall₂ {R : ρ → ρ → Prop} {rows rows' : List ρ} (h : List.Forall₂ R rows rows')
    {col : ρ → κ} (hcol : ∀ r r', R r r' → col r' = col r) : rows'.map col = rows.map col := by
  induction h with
  | nil => rfl
  | cons hhead _ ih => rw [List.map_cons, List.map_cons, ih, hcol _ _ hhead]

/-- With distinct keys, two rows with one key are the same row. -/
theorem eq_of_key_eq {key : ρ → κ} {rows : List ρ} (hkeys : (rows.map key).Nodup) {a b : ρ}
    (ha : a ∈ rows) (hb : b ∈ rows) (h : key a = key b) : a = b :=
  List.inj_on_of_nodup_map hkeys ha hb h

/-- A search that can only mean the row with one key finds it. -/
theorem find?_eq_some_of_mem {key : ρ → κ} {rows : List ρ} (hkeys : (rows.map key).Nodup) {r : ρ}
    (hr : r ∈ rows) {cond : ρ → Bool} (hcond : cond r = true)
    (honly : ∀ q ∈ rows, cond q = true → key q = key r) : rows.find? cond = some r := by
  cases hfind : rows.find? cond with
  | none => exact absurd hcond (List.find?_eq_none.mp hfind r hr)
  | some q =>
      have hq : q ∈ rows := List.mem_of_find?_eq_some hfind
      rw [eq_of_key_eq hkeys hq hr (honly q hq (List.find?_some hfind))]

end ESignSoft.Lib.Table
