import Mathlib.Data.List.Basic

/-!
# Row security on a shared table

A table holds the rows of many owners.  A statement runs in a context, which names one owner or none; a
policy lets it find the rows of that owner only, and refuses a row it would leave behind for anybody else.
A row that is added belongs, unless the statement says otherwise, to the owner the context names.

The constraints of the table (unique keys, references) are not subject to the policy and look at every row.

* `exec` — a statement in a context, and `execOwn`, the same on a table that holds one owner's rows;
* `exec_eq_execOwn` — in an owner's context the shared table answers as the owner's rows alone would;
* `exec_none` — without a context nothing is found and nothing is changed;
* `filter_applyAll_own`, `filter_applyAll_of_spares` — what changes do to the rows of their owner, and to rows they
  spare; `filter_applyAll_other`, to those of others.
-/

namespace ESignSoft.Lib.RowSecurity

universe u v w

variable {ρ : Type u} {τ : Type v} {κ : Type w}

inductive Change (ρ : Type u)
  | add (row : ρ)
  | replace (old new : ρ)
  | remove (old : ρ)

structure Schema (ρ : Type u) (τ : Type v) (κ : Type w) where
  key : ρ → κ
  owner : ρ → τ
  /-- The constraints, of the rows there are and the changes to be made. -/
  admits : List ρ → List (Change ρ) → Bool

inductive Statement (ρ : Type u) (τ : Type v)
  | select (cond : ρ → Bool)
  /-- The row as it is for the owner the context names. -/
  | insert (row : τ → ρ)
  | update (cond : ρ → Bool) (set : ρ → ρ)
  | delete (cond : ρ → Bool)

inductive Answer (ρ : Type u)
  | rows (found : List ρ)
  | count (n : Nat)

namespace Schema

variable [DecidableEq τ] (S : Schema ρ τ κ)

def own (t : τ) (r : ρ) : Bool := S.owner r == t

/-- The policy: whose rows are found, and may be left behind. -/
def visible (ctx : Option τ) (r : ρ) : Bool := ctx == some (S.owner r)

/-- The rows a statement finds. -/
def found (ctx : Option τ) (rows : List ρ) (cond : ρ → Bool) : List ρ :=
  rows.filter fun r => S.visible ctx r && cond r

/-- What a statement changes; `none` when the policy refuses a row it would leave behind. -/
def changes (ctx : Option τ) (rows : List ρ) : Statement ρ τ → Option (List (Change ρ))
  | .select _ => some []
  | .insert row => ctx.bind fun t => if S.visible ctx (row t) then some [.add (row t)] else none
  | .update cond set =>
      let hit := S.found ctx rows cond
      if hit.all fun r => S.visible ctx (set r) then some (hit.map fun r => .replace r (set r)) else none
  | .delete cond => some ((S.found ctx rows cond).map .remove)

def answer (ctx : Option τ) (rows : List ρ) : Statement ρ τ → Answer ρ
  | .select cond => .rows (S.found ctx rows cond)
  | .insert row => .rows (ctx.toList.map row)
  | .update cond _ => .count (S.found ctx rows cond).length
  | .delete cond => .count (S.found ctx rows cond).length

/-- A statement in a context; `none` when it is refused. -/
def exec (ctx : Option τ) (rows : List ρ) (st : Statement ρ τ) : Option (Answer ρ × List (Change ρ)) :=
  (S.changes ctx rows st).bind fun cs =>
    if cs.isEmpty || S.admits rows cs then some (S.answer ctx rows st, cs) else none

/-! ## The table of one owner -/

def changesOwn (t : τ) (rows : List ρ) : Statement ρ τ → Option (List (Change ρ))
  | .select _ => some []
  | .insert row => if S.own t (row t) then some [.add (row t)] else none
  | .update cond set =>
      let hit := rows.filter cond
      if hit.all fun r => S.own t (set r) then some (hit.map fun r => .replace r (set r)) else none
  | .delete cond => some ((rows.filter cond).map .remove)

def answerOwn (t : τ) (rows : List ρ) : Statement ρ τ → Answer ρ
  | .select cond => .rows (rows.filter cond)
  | .insert row => .rows [row t]
  | .update cond _ => .count (rows.filter cond).length
  | .delete cond => .count (rows.filter cond).length

/-- A statement on a table in which every row is the owner's: there is no policy, and no context. -/
def execOwn (t : τ) (rows : List ρ) (st : Statement ρ τ) : Option (Answer ρ × List (Change ρ)) :=
  (S.changesOwn t rows st).bind fun cs =>
    if cs.isEmpty || S.admits rows cs then some (answerOwn t rows st, cs) else none

/-! ## What a context finds -/

variable {S} {t t' : τ} {rows : List ρ} {st : Statement ρ τ} {c : Change ρ} {cs : List (Change ρ)}

theorem visible_some (t : τ) (r : ρ) : S.visible (some t) r = S.own t r := by
  unfold visible own
  rw [Bool.eq_iff_iff, beq_iff_eq, beq_iff_eq, Option.some_inj, eq_comm]

theorem found_some (t : τ) (rows : List ρ) (cond : ρ → Bool) :
    S.found (some t) rows cond = (rows.filter (S.own t)).filter cond := by
  unfold found
  rw [List.filter_filter]
  refine List.filter_congr fun r _ => ?_
  rw [visible_some, Bool.and_comm]

theorem found_none (rows : List ρ) (cond : ρ → Bool) : S.found none rows cond = [] := by
  unfold found
  rw [List.filter_eq_nil_iff]
  intro r _
  simp [visible]

theorem changes_insert (t : τ) (rows : List ρ) (row : τ → ρ) :
    S.changes (some t) rows (.insert row) = if S.own t (row t) then some [.add (row t)] else none := by
  rw [← visible_some]
  rfl

theorem changes_some (t : τ) (rows : List ρ) (st : Statement ρ τ) :
    S.changes (some t) rows st = S.changesOwn t (rows.filter (S.own t)) st := by
  cases st with
  | select cond => rfl
  | insert row => exact changes_insert t rows row
  | update cond set => simp only [changes, changesOwn, found_some, visible_some]
  | delete cond => simp only [changes, changesOwn, found_some]

theorem answer_some (t : τ) (rows : List ρ) (st : Statement ρ τ) :
    S.answer (some t) rows st = answerOwn t (rows.filter (S.own t)) st := by
  cases st with
  | insert row => rfl
  | select cond => simp only [answer, answerOwn, found_some]
  | update cond set => simp only [answer, answerOwn, found_some]
  | delete cond => simp only [answer, answerOwn, found_some]

/-- The constraints say the same of the changes a statement makes when only its owner's rows are looked at. -/
def constraintsOwn (S : Schema ρ τ κ) (t : τ) (rows : List ρ) (st : Statement ρ τ) : Bool :=
  match S.changes (some t) rows st with
  | some cs => S.admits rows cs == S.admits (rows.filter (S.own t)) cs
  | none => true

/-- **In an owner's context the shared table answers as the owner's rows alone would**, as long as the
constraints do not turn on somebody else's row. -/
theorem exec_eq_execOwn (h : S.constraintsOwn t rows st = true) :
    S.exec (some t) rows st = S.execOwn t (rows.filter (S.own t)) st := by
  unfold exec execOwn
  unfold constraintsOwn at h
  rw [← changes_some, answer_some]
  cases hcs : S.changes (some t) rows st with
  | none => rfl
  | some cs =>
      rw [hcs] at h
      simp only [beq_iff_eq] at h
      simp only [Option.bind_some, h]

/-- What a statement can tell without a context: nothing. -/
def blank : Statement ρ τ → Option (Answer ρ)
  | .select _ => some (.rows [])
  | .insert _ => none
  | .update _ _ => some (.count 0)
  | .delete _ => some (.count 0)

/-- **Without a context nothing is found and nothing is changed**, whatever the table holds. -/
theorem exec_none (S : Schema ρ τ κ) (rows : List ρ) (st : Statement ρ τ) :
    S.exec none rows st = (blank st).map fun a => (a, []) := by
  cases st with
  | insert row => rfl
  | select cond => simp [exec, changes, answer, blank, found_none]
  | update cond set => simp [exec, changes, answer, blank, found_none]
  | delete cond => simp [exec, changes, answer, blank, found_none]

/-! ## Whose rows change -/

/-- Every row of a change is the owner's. -/
def Change.OwnedBy (S : Schema ρ τ κ) (t : τ) : Change ρ → Prop
  | .add row => S.owner row = t
  | .replace old new => S.owner old = t ∧ S.owner new = t
  | .remove old => S.owner old = t

def OwnedBy (S : Schema ρ τ κ) (t : τ) (cs : List (Change ρ)) : Prop := ∀ c ∈ cs, Change.OwnedBy S t c

/-- What a statement changes is of the owner its context names. -/
theorem ownedBy_changes (h : S.changes (some t) rows st = some cs) : OwnedBy S t cs := by
  have hfound : ∀ cond, ∀ r ∈ S.found (some t) rows cond, S.owner r = t := by
    intro cond r hr
    rw [found_some] at hr
    have hown := (List.mem_filter.mp (List.mem_filter.mp hr).1).2
    exact beq_iff_eq.mp hown
  intro c hc
  cases st with
  | select cond =>
      obtain rfl := Option.some.inj h
      cases hc
  | insert row =>
      rw [changes_insert] at h
      split at h
      · rename_i hown
        obtain rfl := Option.some.inj h
        obtain rfl := List.mem_singleton.mp hc
        exact beq_iff_eq.mp hown
      · cases h
  | update cond set =>
      simp only [changes] at h
      split at h
      · rename_i hall
        obtain rfl := Option.some.inj h
        obtain ⟨r, hr, rfl⟩ := List.mem_map.mp hc
        have hset := List.all_eq_true.mp hall r hr
        rw [visible_some] at hset
        exact ⟨hfound cond r hr, beq_iff_eq.mp hset⟩
      · cases h
  | delete cond =>
      obtain rfl := Option.some.inj h
      obtain ⟨r, hr, rfl⟩ := List.mem_map.mp hc
      exact hfound cond r hr

theorem ownedBy_of_exec {a : Answer ρ} (h : S.exec (some t) rows st = some (a, cs)) : OwnedBy S t cs := by
  obtain ⟨cs', hcs', hsome⟩ := Option.bind_eq_some_iff.mp h
  split at hsome
  · cases hsome
    exact ownedBy_changes hcs'
  · cases hsome

/-- Rows found in an owner's context are the owner's. -/
theorem owner_of_rows {found : List ρ} (h : S.exec (some t) rows st = some (.rows found, cs)) :
    ∀ r ∈ found, S.owner r = t := by
  obtain ⟨cs', hcs', hsome⟩ := Option.bind_eq_some_iff.mp h
  split at hsome
  · injection hsome with hpair
    obtain ⟨hanswer, -⟩ := Prod.mk.inj hpair
    intro r hr
    cases st with
    | select cond =>
        injection hanswer with hfound
        rw [← hfound, found_some] at hr
        exact beq_iff_eq.mp (List.mem_filter.mp (List.mem_filter.mp hr).1).2
    | insert row =>
        injection hanswer with hfound
        obtain rfl : r = row t := by
          rw [← hfound] at hr
          simpa using hr
        rw [changes_insert] at hcs'
        split at hcs'
        · rename_i hown
          exact beq_iff_eq.mp hown
        · cases hcs'
    | update cond set => cases hanswer
    | delete cond => cases hanswer
  · cases hsome

/-! ## What becomes of the rows -/

section

variable [DecidableEq κ]

/-- The row a change is about. -/
def same (S : Schema ρ τ κ) (old r : ρ) : Bool := S.key r == S.key old && S.owner r == S.owner old

def apply (S : Schema ρ τ κ) (rows : List ρ) : Change ρ → List ρ
  | .add row => rows ++ [row]
  | .replace old new => rows.map fun r => if S.same old r then new else r
  | .remove old => rows.filter fun r => !S.same old r

def applyAll (S : Schema ρ τ κ) (rows : List ρ) (changes : List (Change ρ)) : List ρ := changes.foldl S.apply rows

theorem owner_of_same {old r : ρ} (h : S.same old r = true) : S.owner r = S.owner old := by
  unfold same at h
  rw [Bool.and_eq_true, beq_iff_eq, beq_iff_eq] at h
  exact h.2

theorem filter_apply_own (hc : Change.OwnedBy S t c) (rows : List ρ) :
    (S.apply rows c).filter (S.own t) = S.apply (rows.filter (S.own t)) c := by
  cases c with
  | add row =>
      have hrow : S.own t row = true := beq_iff_eq.mpr hc
      simp [apply, hrow]
  | remove old =>
      show (rows.filter _).filter _ = (rows.filter _).filter _
      rw [List.filter_filter, List.filter_filter]
      refine List.filter_congr fun r _ => ?_
      rw [Bool.and_comm]
  | replace old new =>
      have hnew : S.own t new = true := beq_iff_eq.mpr hc.2
      induction rows with
      | nil => rfl
      | cons r rows ih =>
          unfold apply at ih ⊢
          by_cases hsame : S.same old r = true
          · have hr : S.own t r = true := by
              have hkeys : S.key r = S.key old ∧ S.owner r = S.owner old := by simpa [same] using hsame
              exact beq_iff_eq.mpr (hkeys.2.trans hc.1)
            simp [hsame, hr, hnew, ih]
          · by_cases hr : S.own t r = true
            · simp [hsame, hr, ih]
            · simp [hsame, hr, ih]

/-- No row a change puts there, takes away or writes over is one of those. -/
def Change.Spares (S : Schema ρ τ κ) (p : ρ → Bool) : Change ρ → Prop
  | .add row => p row = false
  | .replace old new => (∀ r, S.same old r = true → p r = false) ∧ p new = false
  | .remove old => ∀ r, S.same old r = true → p r = false

theorem filter_apply_of_spares {p : ρ → Bool} (hc : Change.Spares S p c) (rows : List ρ) :
    (S.apply rows c).filter p = rows.filter p := by
  cases c with
  | add row =>
      have hrow : p row = false := hc
      simp [apply, hrow]
  | remove old =>
      show (rows.filter _).filter p = rows.filter p
      rw [List.filter_filter]
      refine List.filter_congr fun r _ => ?_
      cases hsame : S.same old r with
      | true => simp [hc r hsame]
      | false => simp
  | replace old new =>
      obtain ⟨hold, hnew⟩ := hc
      induction rows with
      | nil => rfl
      | cons r rows ih =>
          unfold apply at ih ⊢
          cases hsame : S.same old r with
          | true => simp [hsame, hold r hsame, hnew, ih]
          | false => simp [hsame, List.filter_cons, ih]

/-- An owner's change spares everybody else's rows. -/
theorem spares_of_ownedBy {p : ρ → Bool} (hc : Change.OwnedBy S t c) (hp : ∀ r, S.owner r = t → p r = false) :
    Change.Spares S p c := by
  cases c with
  | add row => exact hp row hc
  | remove old => exact fun r hsame => hp r ((owner_of_same hsame).trans hc)
  | replace old new => exact ⟨fun r hsame => hp r ((owner_of_same hsame).trans hc.1), hp new hc.2⟩

/-- What an owner's changes do to the owner's rows is what they do to a table of those alone. -/
theorem filter_applyAll_own (hcs : OwnedBy S t cs) (rows : List ρ) :
    (S.applyAll rows cs).filter (S.own t) = S.applyAll (rows.filter (S.own t)) cs := by
  induction cs generalizing rows with
  | nil => rfl
  | cons c cs ih =>
      have hrest := ih (fun d hd => hcs d (List.mem_cons_of_mem c hd)) (S.apply rows c)
      unfold applyAll at hrest ⊢
      rw [List.foldl_cons, List.foldl_cons, hrest, filter_apply_own (hcs c List.mem_cons_self)]

theorem filter_applyAll_of_spares {p : ρ → Bool} (hcs : ∀ c ∈ cs, Change.Spares S p c) (rows : List ρ) :
    (S.applyAll rows cs).filter p = rows.filter p := by
  induction cs generalizing rows with
  | nil => rfl
  | cons c cs ih =>
      have hrest := ih (fun d hd => hcs d (List.mem_cons_of_mem c hd)) (S.apply rows c)
      unfold applyAll at hrest ⊢
      rw [List.foldl_cons, hrest, filter_apply_of_spares (hcs c List.mem_cons_self)]

/-- Nobody else's rows are touched. -/
theorem filter_applyAll_other (hcs : OwnedBy S t' cs) (hne : t ≠ t') (rows : List ρ) :
    (S.applyAll rows cs).filter (S.own t) = rows.filter (S.own t) := by
  refine filter_applyAll_of_spares (fun c hc => spares_of_ownedBy (hcs c hc) fun r hr => ?_) rows
  exact beq_eq_false_iff_ne.mpr fun hown => hne (hown.symm.trans hr)

end

end Schema

end ESignSoft.Lib.RowSecurity
