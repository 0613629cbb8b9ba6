import ESignSoft.Lib.EarliestFirst
import ESignSoft.Sealing.OneSeal
import Mathlib.Order.OrderIsoNat

/-!
# Who the reconciler gets to

A sweep asks the database for up to 25 completed requests that were not sealed or not mailed, oldest first,
and tries to complete each.  What fails stays at the front.

* `Sweeps` — one sweep over the requests, where some fail in every attempt and the others do not;
* `healthy_attended_iff` — sweeping on attends to everything healthy exactly when fewer than 25 failing
  requests are as old as it or older;
* `twenty_five_starve_one` — 25 of them keep the sweep away from a healthy one for ever.
-/

namespace ESignSoft.Operations

open ESignSoft.Lib ESignSoft.Lib.JsText ESignSoft.Contracts ESignSoft.Envelope ESignSoft.Sealing

/-! ## The sweep -/

/-- `interval '2 minutes'`. -/
def GRACE_MS : Int := 2 * 60 * 1000

/-- The default of `findStrandedCompletions`. -/
def STRANDED_LIMIT : Int := 25

/-- `LEAST(GREATEST(max_rows, 1), 100)`. -/
def rowLimit (maxRows : Int) : Nat := (min (max maxRows 1) 100).toNat

/-- `status = 'completed' AND (signed_pdf_key IS NULL OR completion_emailed_at IS NULL)`. -/
def unfinished (r : Request) : Bool :=
  r.row.status == .completed && (r.record.signedPdfKey.isNone || r.completionEmailedAt.isNone)

/-- The rows `find_stranded_completions` looks at; a comparison with NULL does not hold. -/
def due (now : Int) (r : Request) : Bool :=
  unfinished r && r.row.completedAt.any fun completedAt => completedAt < now - GRACE_MS

/-- `completed_at`, where it is known. -/
def completedTime (r : Request) : Int := r.row.completedAt.getD 0

/-- `find_stranded_completions`: the order of rows completed at the same instant is the database's. -/
def FoundStranded (maxRows now : Int) (rows found : List Request) : Prop :=
  Earliest completedTime (rowLimit maxRows) (rows.filter (due now)) found

/-- What `completeSignature` leaves of a request: it is sealed and mailed, or, where it fails, whatever was
recorded before it did. -/
inductive Completes (failing : JsString → Bool) (r : Request) : Request → Prop
  | done (h : failing r.id = false) (record : SealRecord) (hsealed : record.signedPdfKey.isSome)
      (emailedAt : Int) : Completes failing r { r with record, completionEmailedAt := some emailedAt }
  | failed (h : failing r.id = true) (record : SealRecord)
      (hmissing : record.signedPdfKey = none ∨ r.completionEmailedAt = none) :
      Completes failing r { r with record }

/-- One sweep: what it finds, and the requests after it. -/
def Sweeps (failing : JsString → Bool) (now : Int) (rows found rows' : List Request) : Prop :=
  FoundStranded STRANDED_LIMIT now rows found ∧
    ∃ attempt : Request → Request, rows' = rows.map attempt ∧
      ∀ r ∈ rows, (r ∈ found → Completes failing r (attempt r)) ∧ (r ∉ found → attempt r = r)

/-- A stranded completion: one the sweep finds once it is old enough. -/
def stranded (r : Request) : Bool := unfinished r && r.row.completedAt.isSome

/-- The stranded requests that fail in every attempt and are completed no later. -/
def failingBefore (failing : JsString → Bool) (r : Request) (rows : List Request) : Nat :=
  rows.countP fun q => stranded q && failing q.id && completedTime q ≤ completedTime r

/-! ## One sweep -/

theorem stranded_of_due {now : Int} {r : Request} (h : due now r = true) : stranded r = true := by
  unfold due at h
  unfold stranded
  rw [Bool.and_eq_true] at h ⊢
  refine ⟨h.1, ?_⟩
  cases hcompleted : r.row.completedAt with
  | none => simp [hcompleted] at h
  | some _ => rfl

theorem due_iff {now : Int} {r : Request} (h : stranded r = true) :
    due now r = true ↔ completedTime r < now - GRACE_MS := by
  unfold stranded at h
  unfold due completedTime
  rw [Bool.and_eq_true] at h
  cases hcompleted : r.row.completedAt with
  | none => simp [hcompleted] at h
  | some _ => simp [h.1]

variable {failing : JsString → Bool} {now : Int} {rows found rows' : List Request}

theorem Sweeps.found_due (h : Sweeps failing now rows found rows') {r : Request} (hr : r ∈ found) :
    r ∈ rows ∧ due now r = true :=
  List.mem_filter.mp (h.1.subperm.subset hr)

/-- An attempt changes what was recorded, and leaves a failing request stranded and a healthy one not. -/
theorem Sweeps.attempt (h : Sweeps failing now rows found rows') :
    ∃ attempt : Request → Request, rows' = rows.map attempt ∧ (∀ r ∈ rows, r ∉ found → attempt r = r) ∧
      (∀ r ∈ rows, (attempt r).id = r.id ∧ (attempt r).row = r.row) ∧
      (∀ r ∈ rows, failing r.id = true → stranded (attempt r) = stranded r) ∧
      ∀ r ∈ found, failing r.id = false → stranded (attempt r) = false := by
  obtain ⟨attempt, hrows', hattempt⟩ := h.2
  refine ⟨attempt, hrows', fun r hr => (hattempt r hr).2, fun r hr => ?_, fun r hr hfails => ?_,
    fun r hr hhealthy => ?_⟩
  · by_cases hfound : r ∈ found
    · have hresult := (hattempt r hr).1 hfound
      generalize attempt r = r' at hresult
      cases hresult <;> exact ⟨rfl, rfl⟩
    · rw [(hattempt r hr).2 hfound]
      exact ⟨rfl, rfl⟩
  · by_cases hfound : r ∈ found
    · have hresult := (hattempt r hr).1 hfound
      have hstranded := stranded_of_due (h.found_due hfound).2
      generalize attempt r = r' at hresult
      cases hresult with
      | done hhealthy => rw [hfails] at hhealthy; cases hhealthy
      | failed _ record hmissing =>
          rw [hstranded]
          simp only [stranded, unfinished, Bool.and_eq_true] at hstranded ⊢
          rcases hmissing with hkey | hmail
          · simp [hstranded, hkey]
          · simp [hstranded, hmail]
    · rw [(hattempt r hr).2 hfound]
  · have hresult := (hattempt r (h.found_due hr).1).1 hr
    generalize attempt r = r' at hresult
    cases hresult with
    | done _ record hsealed emailedAt =>
        have hkey : record.signedPdfKey.isNone = false := by
          rw [Option.isNone_eq_false_iff]
          exact hsealed
        simp [stranded, unfinished, hkey]
    | failed hfails => rw [hhealthy] at hfails; cases hfails

/-! ## Sweeping on -/

/-- What fails never moves: no sweep changes how many failing requests stand before another. -/
theorem Sweeps.failingBefore_eq (h : Sweeps failing now rows found rows') (r : Request) :
    failingBefore failing r rows' = failingBefore failing r rows := by
  obtain ⟨attempt, rfl, -, hsame, hfailing, -⟩ := h.attempt
  unfold failingBefore
  rw [List.countP_map]
  refine List.countP_congr fun q hq => ?_
  obtain ⟨hid, hrow⟩ := hsame q hq
  have htime : completedTime (attempt q) = completedTime q := by rw [completedTime, hrow, completedTime]
  cases hfails : failing q.id with
  | false => simp [hid, hfails]
  | true => simp [hid, hfails, htime, hfailing q hq hfails]

/-- The sweep, again and again. -/
def Reconciles (failing : JsString → Bool) (now : ℕ → Int) (rows found : ℕ → List Request) : Prop :=
  ∀ n, Sweeps failing (now n) (rows n) (found n) (rows (n + 1))

theorem Reconciles.failingBefore_eq {now : ℕ → Int} {rows found : ℕ → List Request}
    (h : Reconciles failing now rows found) (r : Request) (n : ℕ) :
    failingBefore failing r (rows n) = failingBefore failing r (rows 0) := by
  induction n with
  | zero => rfl
  | succ n ih => rw [(h n).failingBefore_eq, ih]

/-- A request that no sweep has found is as it was. -/
theorem Reconciles.stays {now : ℕ → Int} {rows found : ℕ → List Request}
    (h : Reconciles failing now rows found) {r : Request} (hr : r ∈ rows 0) (hnever : ∀ n, r ∉ found n)
    (n : ℕ) : r ∈ rows n := by
  induction n with
  | zero => exact hr
  | succ n ih =>
      obtain ⟨attempt, hrows', hleft, -⟩ := (h n).attempt
      rw [hrows', ← hleft r ih (hnever n)]
      exact List.mem_map_of_mem ih

/-- The clock passes every instant. -/
theorem exists_later {now : ℕ → Int} (hnow : StrictMono now) (t : Int) : ∃ N, ∀ n, N ≤ n → t < now n := by
  have hgrows : ∀ n : ℕ, now 0 + n ≤ now n := by
    intro n
    induction n with
    | zero => simp
    | succ n ih =>
        have hstep := hnow (Nat.lt_add_one n)
        push_cast
        omega
  refine ⟨(t - now 0 + 1).toNat, fun n hn => ?_⟩
  have hlater := hgrows n
  omega

theorem countP_due_le (failing : JsString → Bool) (now : Int) (r : Request) (rows : List Request) :
    (rows.filter (due now)).countP (fun q => failing q.id && completedTime q ≤ completedTime r) ≤
      failingBefore failing r rows := by
  rw [List.countP_filter]
  refine List.countP_mono_left fun q _ hq => ?_
  simp only [Bool.and_eq_true] at hq ⊢
  exact ⟨⟨stranded_of_due hq.2, hq.1.1⟩, hq.1.2⟩

/-- While a healthy request waits, a sweep finds another one. -/
theorem Sweeps.exists_healthy (h : Sweeps failing now rows found rows') {r : Request} (hr : r ∈ rows)
    (hdue : due now r = true) (hnot : r ∉ found)
    (hfew : failingBefore failing r rows < rowLimit STRANDED_LIMIT) :
    ∃ q ∈ found, failing q.id = false :=
  h.1.exists_free (List.mem_filter.mpr ⟨hr, hdue⟩) hnot (lt_of_le_of_lt (countP_due_le failing now r rows) hfew)

/-- A sweep that finds a healthy request leaves fewer of them stranded. -/
theorem Sweeps.fewer (h : Sweeps failing now rows found rows') {q : Request} (hq : q ∈ found)
    (hhealthy : failing q.id = false) :
    rows'.countP (fun p => stranded p && !failing p.id) < rows.countP fun p => stranded p && !failing p.id := by
  obtain ⟨hmem, hdue⟩ := h.found_due hq
  obtain ⟨attempt, rfl, hleft, hsame, -, hdone⟩ := h.attempt
  refine countP_lt_countP (fun p hp hstranded => ?_) hmem ?_ ?_
  · -- Who is healthy and stranded afterwards was not found, and is as before.
    by_cases hfound : p ∈ found
    · rw [(hsame p hp).1, Bool.and_eq_true, Bool.not_eq_true'] at hstranded
      rw [hdone p hfound hstranded.2] at hstranded
      exact absurd hstranded.1 (by decide)
    · rwa [hleft p hp hfound] at hstranded
  · rw [stranded_of_due hdue, hhealthy]
    rfl
  · rw [hdone q hq hhealthy, Bool.false_and]

/-- Behind few enough failing requests, a healthy one is attended to. -/
theorem Reconciles.attends {now : ℕ → Int} (hnow : StrictMono now) {rows found : ℕ → List Request}
    (h : Reconciles failing now rows found) {r : Request} (hr : r ∈ rows 0) (hstranded : stranded r = true)
    (hfew : failingBefore failing r (rows 0) < rowLimit STRANDED_LIMIT) : ∃ n, r ∈ found n := by
  by_contra hnone
  have hnever : ∀ n, r ∉ found n := fun n hn => hnone ⟨n, hn⟩
  obtain ⟨N, hN⟩ := exists_later hnow (completedTime r + GRACE_MS)
  -- From the sweep on in which it is due, each leaves fewer healthy requests.
  refine not_strictAnti_of_wellFoundedLT
    (fun n => (rows (N + n)).countP fun p => stranded p && !failing p.id)
    (strictAnti_nat_of_succ_lt fun n => ?_)
  have hdue : due (now (N + n)) r = true :=
    (due_iff hstranded).mpr (lt_sub_iff_add_lt.mpr (hN _ (Nat.le_add_right N n)))
  obtain ⟨q, hq, hhealthy⟩ := (h (N + n)).exists_healthy (h.stays hr hnever _) hdue (hnever _)
    (by rwa [h.failingBefore_eq])
  exact (h (N + n)).fewer hq hhealthy

/-! ## Behind too many -/

/-- What a sweep may find: among requests of the same age, those that fail first. -/
def foundFailingFirst (failing : JsString → Bool) (now : Int) (rows : List Request) : List Request :=
  (blockedFirst completedTime (fun q => failing q.id) (rows.filter (due now))).take (rowLimit STRANDED_LIMIT)

/-- A request sealed and mailed. -/
def delivered (r : Request) : Request :=
  { r with
    record := { r.record with signedPdfKey := some (.sibling (js "t1") (js "signed") 0) }
    completionEmailedAt := some 0 }

open Classical in
/-- An attempt that leaves a failing request as it is. -/
noncomputable def attemptOn (failing : JsString → Bool) (found : List Request) (r : Request) : Request :=
  if r ∈ found ∧ failing r.id = false then delivered r else r

theorem sweeps_failingFirst (failing : JsString → Bool) (now : Int) (rows : List Request) :
    Sweeps failing now rows (foundFailingFirst failing now rows)
      (rows.map (attemptOn failing (foundFailingFirst failing now rows))) := by
  have hearliest : Earliest completedTime (rowLimit STRANDED_LIMIT) (rows.filter (due now))
      (foundFailingFirst failing now rows) :=
    earliest_blockedFirst (fun q : Request => failing q.id) _ _
  refine ⟨hearliest, _, rfl, fun r hr => ⟨fun hfound => ?_, fun hnot => ?_⟩⟩
  · have hdue := (List.mem_filter.mp (hearliest.subperm.subset hfound)).2
    unfold attemptOn
    cases hfails : failing r.id with
    | false =>
        rw [if_pos ⟨hfound, rfl⟩]
        exact .done hfails _ rfl _
    | true =>
        rw [if_neg (by simp)]
        refine .failed hfails r.record ?_
        simp only [due, unfinished, Bool.and_eq_true, Bool.or_eq_true, Option.isNone_iff_eq_none] at hdue
        exact hdue.1.2
  · exact if_neg fun h => hnot h.1

noncomputable def rowsFailingFirst (failing : JsString → Bool) (now : ℕ → Int) (rows : List Request) :
    ℕ → List Request
  | 0 => rows
  | n + 1 =>
      let before := rowsFailingFirst failing now rows n
      before.map (attemptOn failing (foundFailingFirst failing (now n) before))

theorem reconciles_failingFirst (failing : JsString → Bool) (now : ℕ → Int) (rows : List Request) :
    Reconciles failing now (rowsFailingFirst failing now rows)
      fun n => foundFailingFirst failing (now n) (rowsFailingFirst failing now rows n) :=
  fun n => sweeps_failingFirst failing (now n) _

/-- Behind too many failing requests, a healthy one may wait for ever. -/
theorem exists_starving (failing : JsString → Bool) (now : ℕ → Int) {rows₀ : List Request} {r : Request}
    (hstranded : stranded r = true) (hhealthy : failing r.id = false)
    (hmany : rowLimit STRANDED_LIMIT ≤ failingBefore failing r rows₀) :
    ∃ rows found, rows 0 = rows₀ ∧ Reconciles failing now rows found ∧ ∀ n, r ∉ found n := by
  have hrun := reconciles_failingFirst failing now rows₀
  refine ⟨_, _, rfl, hrun, fun n hfound => ?_⟩
  have hdue := ((hrun n).found_due hfound).2
  refine not_mem_blockedFirst (fun q : Request => failing q.id) hhealthy ?_ hfound
  -- Whatever is no later than a request that is due is due itself.
  rw [List.countP_filter]
  refine le_trans (hmany.trans_eq (hrun.failingBefore_eq r n).symm) (List.countP_mono_left fun q _ hq => ?_)
  simp only [Bool.and_eq_true, decide_eq_true_eq] at hq ⊢
  refine ⟨⟨hq.1.2, hq.2⟩, (due_iff hq.1.1).mpr (lt_of_le_of_lt hq.2 ((due_iff hstranded).mp hdue))⟩

/-- **Who is starved.**  At whatever instants the sweeps come, they attend to every healthy request, in
whatever order the database breaks ties, exactly when before each there are fewer failing ones than a sweep
takes. -/
theorem healthy_attended_iff (failing : JsString → Bool) {now : ℕ → Int} (hnow : StrictMono now)
    (rows₀ : List Request) :
    (∀ rows found, rows 0 = rows₀ → Reconciles failing now rows found →
        ∀ r ∈ rows₀, stranded r = true → failing r.id = false → ∃ n, r ∈ found n) ↔
      ∀ r ∈ rows₀, stranded r = true → failing r.id = false → failingBefore failing r rows₀ < 25 := by
  constructor
  · intro h r hr hstranded hhealthy
    by_contra hmany
    obtain ⟨rows, found, hstart, hrun, hnever⟩ :=
      exists_starving failing now hstranded hhealthy (not_lt.mp hmany)
    obtain ⟨n, hn⟩ := h rows found hstart hrun r hr hstranded hhealthy
    exact hnever n hn
  · rintro hfew rows found rfl hrun r hr hstranded hhealthy
    exact hrun.attends hnow hr hstranded (hfew r hr hstranded hhealthy)

/-! ## Two queues -/

/-- A completed request that was never sealed. -/
def leftOver (id : JsString) (completedAt : Int) : Request :=
  { exampleRequest 0 with
    id := id
    row := { (exampleRequest 0).row with completedAt := some completedAt } }

/-- So many requests that cannot be sealed, and one that can and was completed after them. -/
def queue (n : ℕ) : List Request :=
  (List.range n).map (fun i => leftOver (List.replicate (i + 1) 0x66) i) ++ [leftOver (js "h") 1000]

def brokenIds (id : JsString) : Bool := id.head? == some 0x66

theorem strictMono_minutes : StrictMono fun n : ℕ => (60000 * n : Int) := by
  intro a b hab
  dsimp only
  omega

theorem healthy_attended_behind_three :
    ∃ n : ℕ, leftOver (js "h") 1000 ∈
      foundFailingFirst brokenIds (60000 * n) (rowsFailingFirst brokenIds (fun n => 60000 * n) (queue 3) n) := by
  have hfew : ∀ r ∈ queue 3, stranded r = true → brokenIds r.id = false →
      failingBefore brokenIds r (queue 3) < 25 :=
    fun r _ _ _ => lt_of_le_of_lt List.countP_le_length (by decide +kernel)
  have hmem : leftOver (js "h") 1000 ∈ queue 3 := List.mem_append_right _ (List.mem_singleton_self _)
  exact (healthy_attended_iff brokenIds strictMono_minutes (queue 3)).mpr hfew _ _ rfl
    (reconciles_failingFirst brokenIds _ _) _ hmem (by decide +kernel) (by decide +kernel)

/-- Twenty-five older requests that cannot be sealed, and one that can: no sweep gets to it. -/
theorem twenty_five_starve_one :
    ¬ ∀ (failing : JsString → Bool) (now : ℕ → Int) (rows found : ℕ → List Request), StrictMono now →
      Reconciles failing now rows found →
        ∀ r ∈ rows 0, stranded r = true → failing r.id = false → ∃ n, r ∈ found n := by
  intro h
  have hmany : 25 ≤ failingBefore brokenIds (leftOver (js "h") 1000) (queue 25) := by decide +kernel
  obtain ⟨rows, found, hstart, hrun, hnever⟩ :=
    exists_starving brokenIds (fun n => 60000 * n) (by decide +kernel) (by decide +kernel) hmany
  have hmem : leftOver (js "h") 1000 ∈ rows 0 := by
    rw [hstart, queue]
    exact List.mem_append_right _ (List.mem_singleton_self _)
  obtain ⟨n, hn⟩ := h brokenIds (fun n => 60000 * n) rows found strictMono_minutes hrun _ hmem (by decide +kernel)
    (by decide +kernel)
  exact hnever n hn

end ESignSoft.Operations
