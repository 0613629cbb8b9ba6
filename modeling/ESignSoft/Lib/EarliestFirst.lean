import Mathlib.Data.List.Perm.Subperm
import Mathlib.Order.Lattice

/-!
# The earliest few

`ORDER BY key LIMIT k` serves the first `k` of some arrangement by key; items with the same key stand in
any order.

* `Earliest.ahead` — what is served before an item that is not;
* `Earliest.exists_free` — among fewer than `k` blocked items, something free is served;
* `earliest_blockedFirst`, `not_mem_blockedFirst` — an arrangement that serves none but blocked items.
-/

namespace ESignSoft.Lib

variable {α κ : Type*} [LinearOrder κ] {key : α → κ}

/-- `ORDER BY key LIMIT k`. -/
def Earliest (key : α → κ) (k : ℕ) (items batch : List α) : Prop :=
  ∃ ordered : List α, ordered.Perm items ∧ ordered.Pairwise (fun a b => key a ≤ key b) ∧
    batch = ordered.take k

variable {k : ℕ} {items batch : List α}

theorem Earliest.subperm (h : Earliest key k items batch) : batch.Subperm items := by
  obtain ⟨ordered, hperm, -, rfl⟩ := h
  exact (List.take_sublist k ordered).subperm.trans hperm.subperm

/-- Where an item is not served, `k` others are, and none of them is later. -/
theorem Earliest.ahead (h : Earliest key k items batch) {r : α} (hr : r ∈ items) (hnot : r ∉ batch) :
    batch.length = k ∧ ∀ x ∈ batch, key x ≤ key r := by
  obtain ⟨ordered, hperm, hsorted, rfl⟩ := h
  have hrest : r ∈ ordered.drop k := by
    have hmem := hperm.mem_iff.mpr hr
    rw [← List.take_append_drop k ordered, List.mem_append] at hmem
    exact hmem.resolve_left hnot
  constructor
  · have hlength := List.length_pos_of_mem hrest
    rw [List.length_drop] at hlength
    exact List.length_take_of_le (by omega)
  · intro x hx
    rw [← List.take_append_drop k ordered, List.pairwise_append] at hsorted
    exact hsorted.2.2 x hx r hrest

/-- **Something free is served** where fewer than `k` blocked items are no later than one that waits. -/
theorem Earliest.exists_free (h : Earliest key k items batch) {blocked : α → Bool} {r : α} (hr : r ∈ items)
    (hnot : r ∉ batch) (hcount : items.countP (fun x => blocked x && key x ≤ key r) < k) :
    ∃ x ∈ batch, blocked x = false := by
  obtain ⟨hlength, hkeys⟩ := h.ahead hr hnot
  by_contra hall
  -- All `k` that are served would be blocked and no later, more than there are.
  have hblocked : batch.countP (fun x => blocked x && key x ≤ key r) = batch.length := by
    rw [List.countP_eq_length]
    intro x hx
    have hx' : blocked x = true := by
      by_contra hfree
      exact hall ⟨x, hx, Bool.eq_false_iff.mpr hfree⟩
    simp [hx', hkeys x hx]
  have hle := h.subperm.countP_le fun x => blocked x && decide (key x ≤ key r)
  omega

/-- By key, and blocked items before others of the same key. -/
def blockedBefore (key : α → κ) (blocked : α → Bool) (a b : α) : Bool :=
  key a < key b || (key a == key b && (blocked a || !blocked b))

theorem blockedBefore_iff {blocked : α → Bool} {a b : α} :
    blockedBefore key blocked a b = true ↔
      key a < key b ∨ key a = key b ∧ (blocked a = true ∨ blocked b = false) := by
  simp [blockedBefore]

def blockedFirst (key : α → κ) (blocked : α → Bool) (items : List α) : List α :=
  items.mergeSort (blockedBefore key blocked)

theorem pairwise_blockedFirst (key : α → κ) (blocked : α → Bool) (items : List α) :
    (blockedFirst key blocked items).Pairwise (fun a b => blockedBefore key blocked a b = true) := by
  refine List.pairwise_mergeSort (fun a b c hab hbc => ?_) (fun a b => ?_) items
  · rw [blockedBefore_iff] at hab hbc ⊢
    rcases hab with hab | ⟨hab, hblocked⟩
    · exact Or.inl (lt_of_lt_of_le hab (hbc.elim le_of_lt fun h => h.1.le))
    · rcases hbc with hbc | ⟨hbc, hblocked'⟩
      · exact Or.inl (hab ▸ hbc)
      · refine Or.inr ⟨hab.trans hbc, ?_⟩
        rcases hblocked with h | h
        · exact Or.inl h
        · exact Or.inr (hblocked'.resolve_left (by simp [h]))
  · rw [Bool.or_eq_true, blockedBefore_iff, blockedBefore_iff]
    rcases lt_trichotomy (key a) (key b) with hlt | heq | hgt
    · exact Or.inl (Or.inl hlt)
    · cases ha : blocked a
      · exact Or.inr (Or.inr ⟨heq.symm, Or.inr rfl⟩)
      · exact Or.inl (Or.inr ⟨heq, Or.inl rfl⟩)
    · exact Or.inr (Or.inl hgt)

theorem earliest_blockedFirst (blocked : α → Bool) (k : ℕ) (items : List α) :
    Earliest key k items ((blockedFirst key blocked items).take k) := by
  refine ⟨_, List.mergeSort_perm .., (pairwise_blockedFirst key blocked items).imp fun h => ?_, rfl⟩
  exact (blockedBefore_iff.mp h).elim le_of_lt fun h => h.1.le

/-- **Nothing free is served** where `k` blocked items are no later than it. -/
theorem not_mem_blockedFirst (blocked : α → Bool) {r : α} (hfree : blocked r = false)
    (hcount : k ≤ items.countP fun x => blocked x && key x ≤ key r) :
    r ∉ (blockedFirst key blocked items).take k := by
  intro hr
  have hsorted := pairwise_blockedFirst key blocked items
  have hsplit := List.take_append_drop k (blockedFirst key blocked items)
  rw [← hsplit, List.pairwise_append] at hsorted
  -- All of them are served, so they are all that is.
  have hrest : ((blockedFirst key blocked items).drop k).countP (fun x => blocked x && key x ≤ key r) = 0 := by
    rw [List.countP_eq_zero]
    intro q hq
    rcases blockedBefore_iff.mp (hsorted.2.2 r hr q hq) with hlt | ⟨-, hblocked⟩
    · simp [hlt]
    · rcases hblocked with h | h
      · rw [hfree] at h
        cases h
      · simp [h]
  have hall : (blockedFirst key blocked items).countP (fun x => blocked x && key x ≤ key r) =
      items.countP fun x => blocked x && key x ≤ key r := (List.mergeSort_perm ..).countP_eq _
  rw [← hsplit, List.countP_append, hrest, Nat.add_zero] at hall
  have hlength := List.length_take_le k (blockedFirst key blocked items)
  have hle := List.countP_le_length (p := fun x => blocked x && decide (key x ≤ key r))
    (l := (blockedFirst key blocked items).take k)
  have hserved := List.countP_eq_length.mp (le_antisymm hle (by omega)) r hr
  simp [hfree] at hserved

/-- A count over a list goes down where nothing new is counted and something no longer is. -/
theorem countP_lt_countP {β : Type*} {p : α → Bool} {q : β → Bool} {f : α → β} {l : List α}
    (himp : ∀ x ∈ l, q (f x) = true → p x = true) {x : α} (hx : x ∈ l) (hp : p x = true)
    (hq : q (f x) = false) : (l.map f).countP q < l.countP p := by
  obtain ⟨before, after, rfl⟩ := List.append_of_mem hx
  have hbefore : before.countP (q ∘ f) ≤ before.countP p :=
    List.countP_mono_left fun y hy => himp y (by simp [hy])
  have hafter : after.countP (q ∘ f) ≤ after.countP p :=
    List.countP_mono_left fun y hy => himp y (by simp [hy])
  have hno : ¬ (q ∘ f) x = true := by simp [hq]
  rw [List.countP_map, List.countP_append, List.countP_append, List.countP_cons_of_neg hno,
    List.countP_cons_of_pos hp]
  omega

end ESignSoft.Lib
