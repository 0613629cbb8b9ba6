import ESignSoft.Billing.PaymeService

/-!
# What Payme is told, and what the ledger says

The three promises about calls that overlap:

* `paid_rests_on_create` — a Payme call marks as paid only a payment whose order, price and transaction an
  accepted CreateTransaction settled, and in time; it changes no payment of the other provider;
* `created_once` — one transaction for each order, findable ever after, as long as no CreateTransaction
  writes over the transaction of another;
* `answers_match` — Performed and cancelled are what happened, as long as the transaction behind the
  answer still finds the payment the way the call had read it.

The calls decide on a row they read before, so that the last two hold under a condition on the row that
the deciding database step finds (`unclaimed`, `unchanged`); a schedule that breaks it follows each.
-/

namespace ESignSoft.Billing.Payme

open ESignSoft.Lib.JsNumber ESignSoft.Lib.Table ESignSoft.Lib.Interleaving

/-! ## Whose payments a call writes -/

theorem Moved.writes {setting : Setting} {w w' : World} {pc pc' : Pc} (hpc : Knows setting w pc)
    (h : Moved setting w pc w' pc') : Books.Writes .payme w.books w'.books := by
  cases h with
  | ended | started | resolved => exact Books.Writes.nothing rfl
  | reported | found => exact Books.Writes.nothing (record_books _ _ _)
  | attached c payment createdAt L hdate hL =>
      exact Books.Writes.event _ L payment rfl hpc.2.1 hL (record_books _ _ _)
  | activated id payment checkedAt now claimed books hrun =>
      rw [record_books]
      exact Books.Writes.call _ claimed payment rfl hpc.1 hrun
  | cancelled c payment state now reason claimed books hreason hrun =>
      rw [record_books]
      exact Books.Writes.call _ claimed payment rfl hpc.1 hrun

/-- To the other provider's adapter a step of a call is one of its surroundings' steps. -/
theorem Moved.outside {setting : Setting} {w w' : World} {pc pc' : Pc} (hw : Sound w.books)
    (hpc : Knows setting w pc) (h : Moved setting w pc w' pc') :
    w'.books = w.books ∨ ∃ o, w.books.outside .click o = some w'.books :=
  (h.writes hpc).outside hw (by decide)

/-! ## No access without a check of the money -/

/-- What stands behind a payment that a Payme call marks as paid: the accepted CreateTransaction that
named the order, quoted its price while it was pending and wrote the transaction that is performed, and
an accepted one that is not older than the timeout. -/
structure MoneyChecked (setting : Setting) (w : World) (r : Payment) (txn : String) (checkedAt : Int) :
    Prop where
  provider : r.provider = .payme
  created : ∃ b ∈ w.bindings,
    setting.paymentId b.create.order = some r.id ∧ b.create.id = txn ∧
    b.seen.id = r.id ∧ b.seen.status = .pending ∧
    (∃ q, b.create.amount = .number (.finite q) ∧ trunc q = r.amountTiyin) ∧
    ⟨.create b.create, .created ⟨b.create.time, r.id, PaymeState.Created⟩⟩ ∈ w.answers
  inTime : ∃ b ∈ w.bindings, b.seen.id = r.id ∧ newDate b.create.time = some b.createdAt ∧
    checkedAt - b.createdAt ≤ PAYME_TRANSACTION_TIMEOUT_MS

/-- Only the step that activates marks a payment as paid. -/
theorem Moved.paid {setting : Setting} {w w' : World} {pc pc' : Pc} (hw : Sound w.books)
    (h : Moved setting w pc w' pc') {r r' : Payment} (hr : r ∈ w.books.ledger.payments)
    (hr' : r' ∈ w'.books.ledger.payments) (hid : r'.id = r.id) (hunpaid : r.status ≠ .paid)
    (hpaid : r'.status = .paid) :
    ∃ txn payment checkedAt now, pc = .activating txn payment checkedAt now ∧ payment.id = r.id := by
  have hsame : r' ∈ w.books.ledger.payments → False := by
    intro hold
    obtain rfl := eq_of_key_eq hw.ids hold hr hid
    exact hunpaid hpaid
  cases h with
  | ended | started | resolved => exact (hsame hr').elim
  | reported | found =>
      rw [record_books] at hr'
      exact (hsame hr').elim
  | attached c payment createdAt L hdate hL =>
      rw [record_books] at hr'
      exact absurd ((Event.apply_status hw.ids hL hr hr' hid).symm.trans hpaid) hunpaid
  | activated txn payment checkedAt now claimed books hrun =>
      rw [record_books] at hr'
      exact ⟨txn, payment, checkedAt, now, rfl, (Books.run_paid hw hrun hr hr' hid hunpaid hpaid).1⟩
  | cancelled c payment state now reason claimed books hreason hrun =>
      rw [record_books] at hr'
      obtain ⟨-, t, p, now', hc⟩ := Books.run_paid hw hrun hr hr' hid hunpaid hpaid
      cases hc

/-- **No access without a check of the money.** -/
theorem paid_rests_on_create {setting : Setting} {tenants : Nat → Tenant} {payments : List Payment}
    {s s' : System World Pc} {p : Nat} {choice : Choice} (h₀ : Fresh payments)
    (h : Reaches (payme setting) (fun _ _ => True) (openPayme tenants payments) s)
    (hstep : (payme setting).step s (.proc p choice) = some s') :
    (∀ r : Payment, r.provider = .click →
      (r ∈ s'.shared.books.ledger.payments ↔ r ∈ s.shared.books.ledger.payments)) ∧
    ∀ r ∈ s.shared.books.ledger.payments, ∀ r' ∈ s'.shared.books.ledger.payments, r'.id = r.id →
      r.status ≠ .paid → r'.status = .paid →
      ∃ txn payment checkedAt now, s.procs p = .activating txn payment checkedAt now ∧
        MoneyChecked setting s.shared r txn checkedAt := by
  have hs := holds_of_reaches h₀ h
  obtain ⟨w', pc', hact, rfl⟩ := Program.step_proc hstep
  have hmoved : Moved setting s.shared (s.procs p) w' pc' := act_moved (p := p) hact
  refine ⟨fun r hprov => (hmoved.writes (hs.proc p)).keeps hs.shared.sound (by rw [hprov]; decide),
    fun r hr r' hr' hid hunpaid hpaid => ?_⟩
  obtain ⟨txn, payment, checkedAt, now, hpc, hpid⟩ := hmoved.paid hs.shared.sound hr hr' hid hunpaid hpaid
  have hknows := hs.proc p
  rw [hpc] at hknows
  obtain ⟨hseen, -, ⟨b, hb, hbid, hbtxn⟩, b', hb', hbid', -, htime⟩ := hknows
  refine ⟨txn, payment, checkedAt, now, hpc, hseen.provider_eq hs.shared.sound hr hpid.symm,
    ⟨b, hb, ?_, hbtxn, hbid.trans hpid, ?_⟩,
    b', hb', hbid'.trans hpid, (hs.shared.accepted b' hb').createdAt, htime⟩
  · rw [(hs.shared.accepted b hb).order, hbid, hpid]
  · have hacc := hs.shared.accepted b hb
    obtain ⟨q, hq, htrunc⟩ := hacc.amount
    obtain ⟨r₁, hr₁, hlater, -⟩ := hacc.row
    -- The order costs what it cost when it was created.
    obtain rfl := eq_of_key_eq hs.shared.sound.ids hr₁ hr (hlater.id.trans (hbid.trans hpid))
    refine ⟨hacc.pending, ⟨q, hq, htrunc.trans hlater.amountTiyin.symm⟩, ?_⟩
    have hanswer := hacc.answer
    rw [hbid, hpid] at hanswer
    exact hanswer

/-- An order is created and performed. -/
theorem paid_rests_on_create_one :
    ∃ s s' : System World Pc,
      (payme exampleSetting).run (openPayme exampleTenants [exampleOrder])
        (exampleCreate 0 "t1" 1000 ++ [examplePerform 1 "t1"] ++ [.proc 1 (.next 1500 1500),
          .proc 1 (.next 1500 1500)]) = some s ∧
      (payme exampleSetting).step s (.proc 1 (.next 1500 1500)) = some s' ∧
      s'.shared.books.ledger.payments ≠ s.shared.books.ledger.payments ∧
      ∀ r : Payment, r.provider = .click →
        (r ∈ s'.shared.books.ledger.payments ↔ r ∈ s.shared.books.ledger.payments) := by
  have hrun : ((payme exampleSetting).run (openPayme exampleTenants [exampleOrder])
      (exampleCreate 0 "t1" 1000 ++ [examplePerform 1 "t1"] ++ [.proc 1 (.next 1500 1500),
        .proc 1 (.next 1500 1500)])).bind (fun s =>
      ((payme exampleSetting).step s (.proc 1 (.next 1500 1500))).map fun s' =>
        decide (s'.shared.books.ledger.payments ≠ s.shared.books.ledger.payments)) = some true := by
    decide +kernel
  obtain ⟨s, hs, hrest⟩ := Option.bind_eq_some_iff.mp hrun
  obtain ⟨s', hs', hne⟩ := Option.map_eq_some_iff.mp hrest
  refine ⟨s, s', hs, hs', of_decide_eq_true hne, ?_⟩
  exact (paid_rests_on_create fresh_exampleOrder (Reaches.of_run (fun _ _ _ => trivial) hs) hs').1

/-! ## One transaction for each order -/

/-- What the calls that answered Created quoted and named: the transaction and the order. -/
def World.created (w : World) : List (String × Nat) :=
  w.answers.filterMap fun a =>
    match a.request, a.result with
    | .create c, .created r => some (c.id, r.transaction)
    | _, _ => none

/-- One transaction for each order, and CheckTransaction finds it. -/
structure OneTransaction (setting : Setting) (w : World) : Prop where
  once : ∀ x ∈ w.created, ∀ y ∈ w.created, x.2 = y.2 → x.1 = y.1
  findable : ∀ x ∈ w.created, ∃ check, check.transaction = x.2 ∧
    ∀ clock now, (serve setting clock now w (.check x.1)).2 = .answered (.ok (.checked check))

/-- Where CreateTransaction writes, the order carries no transaction, or this one already. -/
def unclaimed (s : System World Pc) : Label Choice Outside → Bool
  | .proc p (.next _ _) =>
      match s.procs p with
      | .attaching c payment => s.shared.books.ledger.payments.all fun r =>
          r.id != payment.id || r.providerTxnId == none || r.providerTxnId == some c.id
      | _ => true
  | _ => true

/-- The order carries the transaction. -/
def Carries (L : Ledger) (id : Nat) (txn : String) : Prop :=
  ∃ r ∈ L.payments, r.provider = .payme ∧ r.id = id ∧ r.providerTxnId = some txn

/-- Payme's payments in later states, with the transactions they had. -/
def Keeps (w w' : World) : Prop :=
  ∀ r ∈ w.books.ledger.payments, r.provider = .payme → ∃ r' ∈ w'.books.ledger.payments,
    Later r r' ∧ ∀ txn, r.providerTxnId = some txn → r'.providerTxnId = some txn

theorem Keeps.of_books_eq {w w' : World} (h : w'.books = w.books) : Keeps w w' := by
  intro r hr _
  rw [h]
  exact ⟨r, hr, Later.refl r, fun _ h => h⟩

theorem Carries.keeps {w w' : World} (hw : Keeps w w') {id : Nat} {txn : String}
    (h : Carries w.books.ledger id txn) : Carries w'.books.ledger id txn := by
  obtain ⟨r, hr, hprov, rfl, htxn⟩ := h
  obtain ⟨r', hr', hlater, hkept⟩ := hw r hr hprov
  exact ⟨r', hr', hlater.provider.trans hprov, hlater.id, hkept txn htxn⟩

/-- A step under the condition keeps every transaction where it is. -/
theorem Moved.keeps {setting : Setting} {s : System World Pc} {p : Nat} {w' : World} {pc' : Pc}
    {clock now : Int} (hw : Sound s.shared.books) (hok : unclaimed s (.proc p (.next clock now)) = true)
    (h : Moved setting s.shared (s.procs p) w' pc') : Keeps s.shared w' := by
  generalize hpc : s.procs p = pc at h
  have hrun : ∀ c claimed books, s.shared.books.run c = some (claimed, books) → w'.books = books →
      Keeps s.shared w' := by
    intro c claimed books hrun hbooks r hr _
    obtain ⟨r', hr', hlater, hnotes⟩ := (Books.run_spec hw.ids hrun).later hw r hr
    exact ⟨r', hbooks ▸ hr', hlater, fun txn htxn => hnotes.1.trans htxn⟩
  cases h with
  | ended | started | resolved => exact Keeps.of_books_eq rfl
  | reported | found => exact Keeps.of_books_eq (record_books _ _ _)
  | activated id payment checkedAt now claimed books hbooks =>
      exact hrun _ _ _ hbooks (record_books _ _ _)
  | cancelled c payment state now reason claimed books hreason hbooks =>
      exact hrun _ _ _ hbooks (record_books _ _ _)
  | attached c payment createdAt L hdate hL =>
      intro r hr _
      rw [record_books]
      by_cases hid : r.id = payment.id
      · refine ⟨_, (mem_attachProviderTxn hL).mpr (Or.inl ⟨r, hr, hid, rfl⟩), ?_, fun txn htxn => ?_⟩
        · exact ⟨rfl, rfl, rfl, rfl, fun _ h => h, fun _ h => (by cases h), fun h => h,
            fun h => ⟨h, rfl, rfl, rfl⟩⟩
        · -- Under the condition the transaction written over is the one written.
          have hcheck := List.all_eq_true.mp (by simpa only [unclaimed, hpc] using hok) r hr
          simp only [hid, bne_self_eq_false, Bool.false_or, htxn, Bool.or_eq_true, beq_iff_eq,
            reduceCtorEq, false_or] at hcheck
          exact hcheck.symm
      · exact ⟨r, (mem_attachProviderTxn hL).mpr (Or.inr ⟨hr, hid⟩), Later.refl r, fun _ h => h⟩

/-- What happens beside the calls touches no transaction of Payme's. -/
theorem env_keeps {o : Outside} {w w' : World} (hw : Sound w.books) (h : env o w = some w') :
    Keeps w w' := by
  obtain ⟨books, hbooks, rfl⟩ := Option.map_eq_some_iff.mp h
  intro r hr hprov
  exact ⟨r, (mem_outside hw hbooks hprov).1 hr, Later.refl r, fun _ h => h⟩

/-- Where a call came to its payment by a transaction, the payment carries it. -/
def Held (L : Ledger) : Pc → Prop
  | .finding (.perform txn) _ id => Carries L id txn
  | .finding (.cancel c) _ id => Carries L id c.id
  | .finding (.check txn) _ id => Carries L id txn
  | .cancelling c payment _ _ => Carries L payment.id c.id
  | _ => True

theorem Held.keeps {w w' : World} (hw : Keeps w w') {pc : Pc} (h : Held w.books.ledger pc) :
    Held w'.books.ledger pc := by
  cases pc with
  | finding request tenant id =>
      cases request with
      | perform txn => exact Carries.keeps hw h
      | cancel c => exact Carries.keeps hw h
      | check txn => exact Carries.keeps hw h
      | _ => trivial
  | cancelling c payment state now => exact Carries.keeps hw h
  | _ => trivial

/-- A call that goes on with a payment still has it by its transaction. -/
theorem Moved.held {setting : Setting} {w w' : World} {pc pc' : Pc} (hkeeps : Keeps w w')
    (hpc : Held w.books.ledger pc) (h : Moved setting w pc w' pc') : Held w'.books.ledger pc' := by
  cases h with
  | ended _ _ hend =>
      rcases hend with rfl | ⟨e, rfl⟩
      · trivial
      · trivial
  | started | reported | attached | activated | cancelled => trivial
  | resolved request r hr hnames =>
      cases request with
      | perform txn => exact ⟨r, hr, hnames.1, rfl, hnames.2⟩
      | cancel c => exact ⟨r, hr, hnames.1, rfl, hnames.2⟩
      | check txn => exact ⟨r, hr, hnames.1, rfl, hnames.2⟩
      | _ => trivial
  | found request tenant id payment clock now _ hfind hdecided =>
      refine Held.keeps hkeeps ?_
      cases hdecided with
      | cancel c hopen =>
          show Carries w.books.ledger payment.id c.id
          rw [(find_eq_some hfind).2.1]
          exact hpc
      | _ => trivial

/-- The answers a step adds. -/
theorem mem_record {w : World} {request : Request} {pc : Pc} {a : Answer}
    (h : a ∈ (w.record request pc).answers) :
    a ∈ w.answers ∨ ∃ result, pc = .answered (.ok result) ∧ a = ⟨request, result⟩ := by
  unfold World.record at h
  split at h
  · rename_i result
    rcases List.mem_cons.mp h with rfl | hold
    · exact Or.inr ⟨result, rfl, rfl⟩
    · exact Or.inl hold
  · exact Or.inl h

theorem mem_created_iff {w : World} {x : String × Nat} :
    x ∈ w.created ↔ ∃ c r, ⟨.create c, .created r⟩ ∈ w.answers ∧ x = (c.id, r.transaction) := by
  simp only [World.created, List.mem_filterMap]
  constructor
  · rintro ⟨⟨request, result⟩, ha, hx⟩
    cases request with
    | create c =>
        cases result with
        | created r => exact ⟨c, r, ha, (Option.some.inj hx).symm⟩
        | _ => cases hx
    | _ => cases hx
  · rintro ⟨c, r, ha, rfl⟩
    exact ⟨_, ha, rfl⟩

theorem created_record {w : World} {request : Request} {pc : Pc} {x : String × Nat}
    (h : x ∈ (w.record request pc).created) :
    x ∈ w.created ∨ ∃ c r, request = .create c ∧ pc = .answered (.ok (.created r)) ∧
      x = (c.id, r.transaction) := by
  obtain ⟨c, r, ha, rfl⟩ := mem_created_iff.mp h
  rcases mem_record ha with hold | ⟨result, hpc, ha⟩
  · exact Or.inl (mem_created_iff.mpr ⟨c, r, hold, rfl⟩)
  · obtain ⟨rfl, rfl⟩ := Answer.mk.inj ha
    exact Or.inr ⟨c, r, rfl, hpc, rfl⟩

/-- What was answered Created is carried by the order. -/
theorem Moved.created {setting : Setting} {w w' : World} {pc pc' : Pc} (hkeeps : Keeps w w')
    (hpc : Knows setting w pc)
    (hcreated : ∀ x ∈ w.created, Carries w.books.ledger x.2 x.1) (h : Moved setting w pc w' pc') :
    ∀ x ∈ w'.created, Carries w'.books.ledger x.2 x.1 := by
  intro x hx
  have hold : x ∈ w.created → Carries w'.books.ledger x.2 x.1 :=
    fun hx => (hcreated x hx).keeps hkeeps
  cases h with
  | ended | started | resolved => exact hold hx
  | reported start stop start' stop' =>
      rcases created_record hx with hx | ⟨c, r, -, hpc', -⟩
      · exact hold hx
      · cases hpc'
  | found request tenant id payment clock now _ hfind hdecided =>
      rcases created_record hx with hx | ⟨c, r, rfl, rfl, rfl⟩
      · exact hold hx
      · obtain ⟨hmem, -, -, hprov⟩ := find_eq_some hfind
        refine Carries.keeps hkeeps ?_
        cases hdecided with
        | createdBefore _ createdAt htxn hcreatedAt hclock => exact ⟨payment, hmem, hprov, rfl, htxn⟩
  | activated id payment checkedAt now claimed books hrun =>
      rcases created_record hx with hx | ⟨c, r, -, hpc', -⟩
      · exact hold hx
      · cases hpc'
  | cancelled c payment state now reason claimed books hreason hrun =>
      rcases created_record hx with hx | ⟨c, r, -, hpc', -⟩
      · exact hold hx
      · cases hpc'
  | attached c payment createdAt L hdate hL =>
      rcases created_record hx with hx | ⟨_, r, hc, hpc', rfl⟩
      · exact hold hx
      · obtain ⟨-, ⟨hprov, r₀, hr₀, hlater⟩, -⟩ := hpc
        cases hc
        cases hpc'
        exact ⟨_, (mem_attachProviderTxn hL).mpr (Or.inl ⟨r₀, hr₀, hlater.id, rfl⟩),
          hlater.provider.trans hprov, hlater.id, rfl⟩

/-- The calls side by side, where no CreateTransaction writes over another's transaction. -/
theorem outline_unclaimed (setting : Setting) :
    ProofOutline (payme setting) (fun s l => unclaimed s l = true)
      (fun w => Invariant setting w ∧ ∀ x ∈ w.created, Carries w.books.ledger x.2 x.1)
      (fun w _ pc => Knows setting w pc ∧ Held w.books.ledger pc) (fun _ _ => True) where
  act s p choice w' pc' hs hok hact := by
    have hmoved : Moved setting s.shared (s.procs p) w' pc' := act_moved (p := p) hact
    obtain ⟨hinv, hcreated⟩ := hs.shared
    have hgrows := hmoved.grows hinv.sound
    have hkeeps : Keeps s.shared w' := by
      cases choice with
      | next clock now => exact hmoved.keeps hinv.sound hok
      | _ => exact Keeps.of_books_eq (congrArg World.books (act_world_eq (p := p) hact (by rintro _ _ ⟨⟩)))
    exact ⟨⟨hmoved.invariant hinv (hs.proc p).1, hmoved.created hkeeps (hs.proc p).1 hcreated⟩,
      ⟨hmoved.knows hinv (hs.proc p).1, hmoved.held hkeeps (hs.proc p).2⟩,
      fun q _ => ⟨(hs.proc q).1.grows hgrows, (hs.proc q).2.keeps hkeeps⟩, fun _ _ => ⟨trivial, trivial⟩⟩
  env s o w' hs _ henv := by
    obtain ⟨hinv, hcreated⟩ := hs.shared
    obtain ⟨hinv', hgrows⟩ := env_spec hinv henv
    have hkeeps := env_keeps hinv.sound henv
    refine ⟨⟨hinv', fun x hx => (hcreated x ?_).keeps hkeeps⟩,
      fun q => ⟨(hs.proc q).1.grows hgrows, (hs.proc q).2.keeps hkeeps⟩⟩
    obtain ⟨books, -, rfl⟩ := Option.map_eq_some_iff.mp henv
    exact hx

theorem holds_unclaimed {setting : Setting} {ok : System World Pc → Label Choice Outside → Prop}
    (hok : ∀ s l, ok s l → unclaimed s l = true) {tenants : Nat → Tenant} {payments : List Payment}
    {s : System World Pc} (h₀ : Fresh payments)
    (h : Reaches (payme setting) ok (openPayme tenants payments) s) :
    Holds (fun w => Invariant setting w ∧ ∀ x ∈ w.created, Carries w.books.ledger x.2 x.1)
      (fun w _ pc => Knows setting w pc ∧ Held w.books.ledger pc) (fun _ _ => True) s :=
  (outline_unclaimed setting).holds_of_reaches (h.mono hok)
    ⟨⟨(holds_open h₀ tenants).shared, fun _ hx => (List.not_mem_nil hx).elim⟩,
      fun _ => ⟨trivial, trivial⟩, fun _ _ _ => trivial⟩

/-- **One transaction for each order**, as long as no CreateTransaction writes over the transaction of
another. -/
theorem created_once {setting : Setting} {tenants : Nat → Tenant} {payments : List Payment}
    {s : System World Pc} (h₀ : Fresh payments)
    (h : Reaches (payme setting) (fun s l => unclaimed s l = true) (openPayme tenants payments) s) :
    OneTransaction setting s.shared := by
  obtain ⟨hinv, hcreated⟩ := (holds_unclaimed (fun _ _ h => h) h₀ h).shared
  refine ⟨fun x hx y hy hxy => ?_, fun x hx => ?_⟩
  · obtain ⟨r, hr, -, hid, htxn⟩ := hcreated x hx
    obtain ⟨r', hr', -, hid', htxn'⟩ := hcreated y hy
    obtain rfl := eq_of_key_eq hinv.sound.ids hr hr' (hid.trans (hxy.trans hid'.symm))
    exact Option.some.inj (htxn.symm.trans htxn')
  · obtain ⟨r, hr, hprov, hid, htxn⟩ := hcreated x hx
    exact ⟨checkOn r, hid, serve_check hinv.sound hr hprov htxn⟩

/-- A call repeated after the first has written. -/
theorem created_once_repeated :
    ∃ s : System World Pc,
      (payme exampleSetting).runIf unclaimed (openPayme exampleTenants [exampleOrder])
        (exampleCreate 0 "t1" 1000 ++
          exampleCall 1 "t1" 1000 :: List.replicate 2 (.proc 1 (.next 1000 1000))) = some s ∧
      s.shared.created = [("t1", 1), ("t1", 1)] ∧ OneTransaction exampleSetting s.shared := by
  have hrun : ((payme exampleSetting).runIf unclaimed (openPayme exampleTenants [exampleOrder])
      (exampleCreate 0 "t1" 1000 ++
        exampleCall 1 "t1" 1000 :: List.replicate 2 (.proc 1 (.next 1000 1000)))).map
        (fun s => s.shared.created) =
      some [("t1", 1), ("t1", 1)] := by
    decide +kernel
  obtain ⟨s, hs, hcreated⟩ := Option.map_eq_some_iff.mp hrun
  exact ⟨s, hs, hcreated, created_once fresh_exampleOrder (Reaches.of_runIf hs)⟩

/-- Two CreateTransactions read the order before either writes: both are answered Created, and the first
transaction is gone. -/
theorem created_twice :
    ∃ s : System World Pc,
      Reaches (payme exampleSetting) (fun _ _ => True) (openPayme exampleTenants [exampleOrder]) s ∧
      ¬ OneTransaction exampleSetting s.shared := by
  have hrun : ((payme exampleSetting).run (openPayme exampleTenants [exampleOrder])
      [exampleCall 0 "t1" 1000, exampleCall 1 "t2" 1000, .proc 0 (.next 1000 1000),
        .proc 1 (.next 1000 1000), .proc 0 (.next 1000 1000), .proc 1 (.next 1000 1000),
        .proc 0 (.next 1000 1000), .proc 1 (.next 1000 1000)]).map (fun s => s.shared.created) =
      some [("t2", 1), ("t1", 1)] := by
    decide +kernel
  obtain ⟨s, hs, hcreated⟩ := Option.map_eq_some_iff.mp hrun
  refine ⟨s, Reaches.of_run (fun _ _ _ => trivial) hs, fun hone => ?_⟩
  have hsame := hone.once ("t2", 1) (by rw [hcreated]; decide) ("t1", 1) (by rw [hcreated]; decide) rfl
  exact absurd hsame (by decide)

/-- The condition is exact: where a CreateTransaction does write over another's transaction, two
transactions were answered Created for the order. -/
theorem not_oneTransaction_of_claimed {setting : Setting} {tenants : Nat → Tenant}
    {payments : List Payment} {s s' : System World Pc} {p : Nat} {clock now : Int} {r : CreateResult}
    (h₀ : Fresh payments) (h : Reaches (payme setting) (fun _ _ => True) (openPayme tenants payments) s)
    (hstep : (payme setting).step s (.proc p (.next clock now)) = some s')
    (hclaimed : unclaimed s (.proc p (.next clock now)) = false)
    (hanswer : s'.procs p = .answered (.ok (.created r))) : ¬ OneTransaction setting s'.shared := by
  intro hone
  have hs := holds_of_reaches h₀ h
  obtain ⟨w', pc', hact, rfl⟩ := Program.step_proc hstep
  have hmoved : Moved setting s.shared (s.procs p) w' pc' := act_moved (p := p) hact
  have hknows := hs.proc p
  generalize hpc : s.procs p = pc at hmoved hknows
  have hgrows := hmoved.grows hs.shared.sound
  obtain rfl : pc' = .answered (.ok (.created r)) := by simpa using hanswer
  cases hmoved with
  | ended _ _ hend =>
      rcases hend with hend | ⟨e, hend⟩
      · cases hend
      · cases hend
  | found request tenant id payment clock' now' _ hfind hdecided =>
      simp [unclaimed, hpc] at hclaimed
  | attached c payment createdAt L hdate hL =>
      -- The transaction written over is on record as answered Created for the same order.
      obtain ⟨q, hq, hcheck⟩ := List.all_eq_false.mp (by simpa only [unclaimed, hpc] using hclaimed)
      simp only [Bool.or_eq_true, bne_iff_ne, ne_eq, beq_iff_eq, not_or, not_not] at hcheck
      obtain ⟨⟨hid, hbound⟩, hother⟩ := hcheck
      obtain ⟨txn, htxn⟩ := Option.ne_none_iff_exists'.mp hbound
      obtain ⟨b, hb, hbid, hbtxn, -⟩ :=
        hs.shared.bound q hq (hknows.2.1.provider_eq hs.shared.sound hq hid) txn htxn
      have hold := mem_created_iff.mpr ⟨_, _, hgrows.answers _ (hs.shared.accepted b hb).answer, rfl⟩
      have hlast : (⟨.create c, .created ⟨c.time, payment.id, PaymeState.Created⟩⟩ : Answer) ∈
          ((s.shared.bind c payment createdAt L).record (.create c)
            (.answered (.ok (.created ⟨c.time, payment.id, PaymeState.Created⟩)))).answers :=
        List.mem_cons_self
      have hnew := mem_created_iff.mpr ⟨_, _, hlast, rfl⟩
      have hsame : b.create.id = c.id := hone.once _ hold _ hnew (hbid.trans hid)
      exact hother (by rw [htxn, ← hbtxn, hsame])

/-! ## Performed and cancelled -/

/-- What was answered Performed or cancelled is so: the payment was activated and stamped with the time
answered, and CheckTransaction returns the state and the time a cancellation answered. -/
structure AnswersMatch (setting : Setting) (w : World) : Prop where
  performed : ∀ a ∈ w.answers, ∀ r, a.result = .performed r → r.state = PaymeState.Performed ∧
    ∃ payment ∈ w.books.ledger.payments, payment.id = r.transaction ∧
      payment.paidAt = some r.perform_time ∧ ∃ g ∈ w.books.grants, g.payment = payment.id
  cancelled : ∀ a ∈ w.answers, ∀ r, a.result = .cancelled r → ∃ c, a.request = .cancel c ∧
    ∃ check, check.transaction = r.transaction ∧ check.state = r.state ∧
      check.cancel_time = r.cancel_time ∧
      ∀ clock now, (serve setting clock now w (.check c.id)).2 = .answered (.ok (.checked check))

/-- Where a call activates, the payment is pending, or was activated at this very instant; where one
cancels, the payment was paid exactly if the call had read it so, and is not cancelled, or was so at this
very instant. -/
def unchanged (s : System World Pc) : Label Choice Outside → Bool
  | .proc p (.next _ _) =>
      match s.procs p with
      | .activating _ payment _ now => s.shared.books.ledger.payments.all fun r =>
          r.id != payment.id || r.status == .pending || r.paidAt == some now
      | .cancelling _ payment _ now => s.shared.books.ledger.payments.all fun r =>
          r.id != payment.id || ((payment.status == .paid) == r.paidAt.isSome &&
            (r.status != .cancelled || r.cancelledAt == some now))
      | _ => true
  | _ => true

/-- The answer is right about the payment: activated at the time answered, or cancelled. -/
def Matches (L : Ledger) (a : Answer) : Prop :=
  match a.result with
  | .performed r => r.state = PaymeState.Performed ∧ ∃ payment ∈ L.payments,
      payment.provider = .payme ∧ payment.id = r.transaction ∧ payment.paidAt = some r.perform_time
  | .cancelled r => ∃ c, a.request = .cancel c ∧ ∃ payment ∈ L.payments,
      payment.provider = .payme ∧ payment.id = r.transaction ∧ payment.providerTxnId = some c.id ∧
        payment.status = .cancelled ∧ payment.cancelledAt = some r.cancel_time ∧
        cancelledState payment = r.state
  | _ => True

theorem Matches.keeps {w w' : World} (hw : Keeps w w') {a : Answer} (h : Matches w.books.ledger a) :
    Matches w'.books.ledger a := by
  unfold Matches at h ⊢
  cases hresult : a.result with
  | performed r =>
      rw [hresult] at h
      obtain ⟨hstate, payment, hmem, hprov, hid, hpaidAt⟩ := h
      obtain ⟨r', hr', hlater, -⟩ := hw payment hmem hprov
      exact ⟨hstate, r', hr', hlater.provider.trans hprov, hlater.id.trans hid, hlater.paidAt _ hpaidAt⟩
  | cancelled r =>
      rw [hresult] at h
      obtain ⟨c, hc, payment, hmem, hprov, hid, htxn, hstatus, hcancelledAt, hstate⟩ := h
      obtain ⟨r', hr', hlater, hkept⟩ := hw payment hmem hprov
      obtain ⟨hstatus', hpaidAt, hcancelled', -⟩ := hlater.cancelled hstatus
      refine ⟨c, hc, r', hr', hlater.provider.trans hprov, hlater.id.trans hid, hkept _ htxn, hstatus',
        hcancelled'.trans hcancelledAt, ?_⟩
      simpa only [cancelledState, hpaidAt] using hstate
  | _ => trivial

/-- The step that activates answers rightly exactly where the payment is pending, or stamped with this
very instant. -/
theorem performed_matches_iff {b b' : Books} {payment r : Payment} {now : Int} {claimed : Bool}
    (hb : Sound b) (hb' : Sound b') (hr : r ∈ b.ledger.payments) (hlater : Later payment r)
    (hran : Books.Ran b (.activate payment.tenantId payment.id now) claimed b') :
    (∃ r' ∈ b'.ledger.payments, r'.id = payment.id ∧ r'.paidAt = some now) ↔
      r.status = .pending ∨ r.paidAt = some now := by
  obtain ⟨r', hr', hid', hpaidAt, -⟩ := hran.activate_row hb hr hlater.id hlater.tenantId
  have hrow : (∃ r' ∈ b'.ledger.payments, r'.id = payment.id ∧ r'.paidAt = some now) ↔
      r'.paidAt = some now := by
    constructor
    · rintro ⟨q, hq, hqid, hqpaid⟩
      obtain rfl := eq_of_key_eq hb'.ids hq hr' (hqid.trans hid'.symm)
      exact hqpaid
    · intro h
      exact ⟨r', hr', hid', h⟩
  rw [hrow, hpaidAt]
  by_cases hpending : r.status = .pending
  · simp [hpending]
  · simp [hpending]

/-- The step that cancels answers rightly exactly where the payment was paid as the call had read it, and
is not cancelled, or was at this very instant. -/
theorem cancelled_matches_iff {b b' : Books} {payment r : Payment} {reason : Option Int} {now : Int}
    {claimed : Bool} (hb : Sound b) (hb' : Sound b') (hr : r ∈ b.ledger.payments)
    (hlater : Later payment r)
    (hran : Books.Ran b (.cancel payment.tenantId payment.id reason now) claimed b') :
    (∃ r' ∈ b'.ledger.payments, r'.id = payment.id ∧ r'.status = .cancelled ∧
        r'.cancelledAt = some now ∧ cancelledState r' = (if payment.status = .paid then
          PaymeState.CancelledAfterPerform else PaymeState.CancelledBeforePerform)) ↔
      (payment.status = .paid ↔ r.paidAt.isSome = true) ∧
        (r.status = .cancelled → r.cancelledAt = some now) := by
  obtain ⟨r', hr', hid', hstatus', hpaidAt, hcancelledAt, -⟩ :=
    hran.cancel_row hb hr hlater.id hlater.tenantId
  have hrow : (∃ r' ∈ b'.ledger.payments, r'.id = payment.id ∧ r'.status = .cancelled ∧
      r'.cancelledAt = some now ∧ cancelledState r' = (if payment.status = .paid then
        PaymeState.CancelledAfterPerform else PaymeState.CancelledBeforePerform)) ↔
      r'.cancelledAt = some now ∧ cancelledState r' = (if payment.status = .paid then
        PaymeState.CancelledAfterPerform else PaymeState.CancelledBeforePerform) := by
    constructor
    · rintro ⟨q, hq, hqid, -, hrest⟩
      obtain rfl := eq_of_key_eq hb'.ids hq hr' (hqid.trans hid'.symm)
      exact hrest
    · intro h
      exact ⟨r', hr', hid', hstatus', h⟩
  rw [hrow, hcancelledAt]
  simp only [cancelledState, hpaidAt]
  have hstates : PaymeState.CancelledAfterPerform ≠ PaymeState.CancelledBeforePerform := by decide
  by_cases hpaid : payment.status = .paid <;> by_cases hstamp : r.paidAt.isSome = true <;>
    by_cases hcancelled : r.status = .cancelled <;>
    simp [hpaid, hstamp, hcancelled, hstates, hstates.symm]

/-- An answer a step adds under the conditions is right. -/
theorem Moved.matches {setting : Setting} {s : System World Pc} {p : Nat} {w' : World} {pc' : Pc}
    {clock now : Int} (hw : Invariant setting s.shared) (hknows : Knows setting s.shared (s.procs p))
    (hheld : Held s.shared.books.ledger (s.procs p)) (hkeeps : Keeps s.shared w')
    (hok : unchanged s (.proc p (.next clock now)) = true)
    (h : Moved setting s.shared (s.procs p) w' pc') {a : Answer} (ha : a ∈ w'.answers) :
    a ∈ s.shared.answers ∨ Matches w'.books.ledger a := by
  have hsound' := (h.invariant hw hknows).sound
  generalize hpc : s.procs p = pc at h hknows hheld
  cases h with
  | ended | started | resolved => exact Or.inl ha
  | reported start stop start' stop' =>
      rcases mem_record ha with hold | ⟨result, hresult, rfl⟩
      · exact Or.inl hold
      · obtain rfl : result = _ := (Except.ok.inj (Pc.answered.inj hresult)).symm
        exact Or.inr trivial
  | attached c payment createdAt L hdate hL =>
      rcases mem_record ha with hold | ⟨result, hresult, rfl⟩
      · exact Or.inl hold
      · obtain rfl : result = _ := (Except.ok.inj (Pc.answered.inj hresult)).symm
        exact Or.inr trivial
  | found request tenant id payment clock' now' _ hfind hdecided =>
      rcases mem_record ha with hold | ⟨result, rfl, rfl⟩
      · exact Or.inl hold
      · obtain ⟨hmem, rfl, -, hprov⟩ := find_eq_some hfind
        refine Or.inr (Matches.keeps hkeeps ?_)
        cases hdecided with
        | performedBefore txn paidAt hpaid hpaidAt => exact ⟨rfl, payment, hmem, hprov, rfl, hpaidAt⟩
        | cancelledBefore c cancelledAt hstatus hcancelledAt =>
            -- The call came here by the transaction, and this is the payment that carries it.
            obtain ⟨r, hr, -, hrid, htxn⟩ := hheld
            obtain rfl := eq_of_key_eq hw.sound.ids hr hmem hrid
            exact ⟨c, rfl, r, hr, hprov, rfl, htxn, hstatus, hcancelledAt, rfl⟩
        | _ => trivial
  | activated txn payment checkedAt now' claimed books hrun =>
      rcases mem_record ha with hold | ⟨result, hresult, rfl⟩
      · exact Or.inl hold
      · obtain rfl : result = _ := (Except.ok.inj (Pc.answered.inj hresult)).symm
        obtain ⟨⟨hprov, r, hr, hlater⟩, -⟩ := hknows
        have hcheck := List.all_eq_true.mp (by simpa only [unchanged, hpc] using hok) r hr
        simp only [hlater.id, bne_self_eq_false, Bool.false_or, Bool.or_eq_true, beq_iff_eq] at hcheck
        obtain ⟨r', hr', hid', hpaidAt⟩ := (performed_matches_iff hw.sound hsound' hr hlater
          (Books.run_spec hw.sound.ids hrun)).mpr hcheck
        refine Or.inr ⟨rfl, r', hr', ?_, hid', hpaidAt⟩
        obtain ⟨r₁, hr₁, hlater₁, -⟩ := hkeeps r hr (hlater.provider.trans hprov)
        obtain rfl := eq_of_key_eq hsound'.ids hr₁ hr' ((hlater₁.id.trans hlater.id).trans hid'.symm)
        exact hlater₁.provider.trans (hlater.provider.trans hprov)
  | cancelled c payment state now' reason claimed books hreason hrun =>
      rcases mem_record ha with hold | ⟨result, hresult, rfl⟩
      · exact Or.inl hold
      · obtain rfl : result = _ := (Except.ok.inj (Pc.answered.inj hresult)).symm
        obtain ⟨⟨hprov, r, hr, hlater⟩, -, rfl⟩ := hknows
        have hcheck := List.all_eq_true.mp (by simpa only [unchanged, hpc] using hok) r hr
        simp only [hlater.id, bne_self_eq_false, Bool.false_or, Bool.and_eq_true, Bool.or_eq_true,
          beq_iff_eq, bne_iff_ne, ne_eq] at hcheck
        obtain ⟨r', hr', hid', hstatus', hcancelledAt', hstate'⟩ := (cancelled_matches_iff hw.sound
          hsound' hr hlater (Books.run_spec hw.sound.ids hrun)).mpr
            ⟨by rw [← hcheck.1]; simp, fun h => hcheck.2.resolve_left (fun hne => hne h)⟩
        obtain ⟨q, hq, hqprov, hqid, hqtxn⟩ : Carries books.ledger payment.id c.id := hheld.keeps hkeeps
        obtain rfl := eq_of_key_eq hsound'.ids hq hr' (hqid.trans hid'.symm)
        exact Or.inr ⟨c, rfl, q, hq, hqprov, hqid, hqtxn, hstatus', hcancelledAt', hstate'⟩

theorem matches_of_reaches {setting : Setting} {tenants : Nat → Tenant} {payments : List Payment}
    {s : System World Pc} (h₀ : Fresh payments)
    (h : Reaches (payme setting) (fun s l => unclaimed s l = true ∧ unchanged s l = true)
      (openPayme tenants payments) s) :
    ∀ a ∈ s.shared.answers, Matches s.shared.books.ledger a := by
  have hstrong := h.strengthen (I := Holds
    (fun w => Invariant setting w ∧ ∀ x ∈ w.created, Carries w.books.ledger x.2 x.1)
    (fun w _ pc => Knows setting w pc ∧ Held w.books.ledger pc) (fun _ _ => True))
    (fun s l s' hs hok hstep => (outline_unclaimed setting).holds_step s l s' hs hok.1 hstep)
    (holds_unclaimed (fun _ _ h => h) h₀ (Reaches.refl _))
  refine hstrong.invariant (I := fun s => ∀ a ∈ s.shared.answers, Matches s.shared.books.ledger a) ?_
    fun a ha => (List.not_mem_nil ha).elim
  rintro s l s' hold ⟨⟨hunclaimed, hunchanged⟩, hs⟩ hstep a ha
  obtain ⟨hinv, -⟩ := hs.shared
  cases l with
  | env o =>
      obtain ⟨w', henv, rfl⟩ := Program.step_env hstep
      obtain ⟨books, -, rfl⟩ := Option.map_eq_some_iff.mp henv
      exact (hold a ha).keeps (env_keeps hinv.sound henv)
  | proc p choice =>
      obtain ⟨w', pc', hact, rfl⟩ := Program.step_proc hstep
      have hmoved : Moved setting s.shared (s.procs p) w' pc' := act_moved (p := p) hact
      cases choice with
      | next clock now =>
          have hkeeps := hmoved.keeps hinv.sound hunclaimed
          rcases hmoved.matches hinv (hs.proc p).1 (hs.proc p).2 hkeeps hunchanged ha with ha | hmatches
          · exact (hold a ha).keeps hkeeps
          · exact hmatches
      | _ =>
          have hw : w' = s.shared := act_world_eq (p := p) hact (by rintro _ _ ⟨⟩)
          subst hw
          exact hold a ha

/-- **Performed and cancelled are what happened**, as long as the transaction behind an answer still finds
the payment as the call had read it. -/
theorem answers_match {setting : Setting} {tenants : Nat → Tenant} {payments : List Payment}
    {s : System World Pc} (h₀ : Fresh payments)
    (h : Reaches (payme setting) (fun s l => unclaimed s l = true ∧ unchanged s l = true)
      (openPayme tenants payments) s) :
    AnswersMatch setting s.shared := by
  obtain ⟨hinv, -⟩ := (holds_unclaimed (fun _ _ h => h.1) h₀ h).shared
  have hmatches := matches_of_reaches h₀ h
  refine ⟨fun a ha r hr => ?_, fun a ha r hr => ?_⟩
  · have hmatch := hmatches a ha
    simp only [Matches, hr] at hmatch
    obtain ⟨hstate, payment, hmem, -, hid, hpaidAt⟩ := hmatch
    exact ⟨hstate, payment, hmem, hid, hpaidAt,
      (hinv.sound.stamps payment hmem).activated.mp (by rw [hpaidAt]; exact Option.some_ne_none _)⟩
  · have hmatch := hmatches a ha
    simp only [Matches, hr] at hmatch
    obtain ⟨c, hc, payment, hmem, hprov, hid, htxn, hstatus, hcancelledAt, hstate⟩ := hmatch
    refine ⟨c, hc, checkOn payment, hid, ?_, ?_, serve_check hinv.sound hmem hprov htxn⟩
    · rw [← hstate]
      simp [checkOn, stateOf, hstatus]
    · simp [checkOn, hcancelledAt]

/-- A payment performed and then refunded, one call after the other. -/
theorem answers_match_refunded :
    ∃ s : System World Pc,
      (payme exampleSetting).runIf (fun s l => unclaimed s l && unchanged s l)
        (openPayme exampleTenants [exampleOrder])
        (exampleCreate 0 "t1" 1000 ++ examplePerform 1 "t1" :: List.replicate 3 (.proc 1 (.next 1500 1500)) ++
          exampleCancel 2 "t1" :: List.replicate 3 (.proc 2 (.next 2000 2000))) = some s ∧
      s.shared.answers.map Answer.result =
        [.cancelled ⟨1, 2000, -2⟩, .performed ⟨1, 1500, 2⟩, .created ⟨1000, 1, 1⟩] ∧
      AnswersMatch exampleSetting s.shared := by
  have hrun : ((payme exampleSetting).runIf (fun s l => unclaimed s l && unchanged s l)
      (openPayme exampleTenants [exampleOrder])
      (exampleCreate 0 "t1" 1000 ++ examplePerform 1 "t1" :: List.replicate 3 (.proc 1 (.next 1500 1500)) ++
        exampleCancel 2 "t1" :: List.replicate 3 (.proc 2 (.next 2000 2000)))).map
        (fun s => s.shared.answers.map Answer.result) =
      some [.cancelled ⟨1, 2000, -2⟩, .performed ⟨1, 1500, 2⟩, .created ⟨1000, 1, 1⟩] := by
    decide +kernel
  obtain ⟨s, hs, hanswers⟩ := Option.map_eq_some_iff.mp hrun
  refine ⟨s, hs, hanswers, answers_match fresh_exampleOrder ((Reaches.of_runIf hs).mono ?_)⟩
  intro s l hok
  simpa using hok

/-- PerformTransaction reads the order pending, CancelTransaction cancels it, and PerformTransaction
answers Performed: a payment that was never activated. -/
theorem performed_never_activated :
    ∃ s : System World Pc,
      Reaches (payme exampleSetting) (fun _ _ => True) (openPayme exampleTenants [exampleOrder]) s ∧
      ¬ AnswersMatch exampleSetting s.shared := by
  have hrun : ((payme exampleSetting).run (openPayme exampleTenants [exampleOrder])
      (exampleCreate 0 "t1" 1000 ++ examplePerform 1 "t1" :: List.replicate 2 (.proc 1 (.next 1500 1500)) ++
        exampleCancel 2 "t1" :: List.replicate 3 (.proc 2 (.next 1600 1600)) ++
        [.proc 1 (.next 1700 1700)])).map (fun s =>
          (s.shared.answers.map Answer.result, s.shared.books.ledger.payments.map Payment.status,
            s.shared.books.grants)) =
      some ([.performed ⟨1, 1500, 2⟩, .cancelled ⟨1, 1600, -1⟩, .created ⟨1000, 1, 1⟩], [.cancelled], []) := by
    decide +kernel
  obtain ⟨s, hs, hfacts⟩ := Option.map_eq_some_iff.mp hrun
  obtain ⟨hanswers, hrest⟩ := Prod.mk.inj hfacts
  obtain ⟨-, hgrants⟩ := Prod.mk.inj hrest
  refine ⟨s, Reaches.of_run (fun _ _ _ => trivial) hs, fun hmatch => ?_⟩
  have hmem : Result.performed ⟨1, 1500, 2⟩ ∈ s.shared.answers.map Answer.result := by
    rw [hanswers]
    exact List.mem_cons_self
  obtain ⟨a, ha, hresult⟩ := List.mem_map.mp hmem
  obtain ⟨-, _, -, -, -, g, hg, -⟩ := hmatch.performed a ha _ hresult
  rw [hgrants] at hg
  exact List.not_mem_nil hg

end ESignSoft.Billing.Payme
