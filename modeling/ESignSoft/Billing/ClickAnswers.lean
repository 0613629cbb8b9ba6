import ESignSoft.Billing.ClickService

/-!
# What Click is told, and what the ledger says

The three promises about callbacks that overlap:

* `paid_rests_on_prepare` — a callback marks as paid only a payment that a signed Complete named, at its
  price and quoting the identifier an accepted Prepare stored; it changes no payment of the other provider;
* `prepare_ids_stable` — one identifier for each payment, the one that is stored ever after, as long as no
  Prepare writes over the identifier of another;
* `complete_answers` — Success and AlreadyPaid are what happened, as long as no payment is cancelled under
  a Complete that is about to activate it and no failure is reported for a payment that was paid.

The callbacks decide on a row they read before, so that the last two hold under a condition on the row
that the deciding database step finds (`unissued`, `settled`); a schedule that breaks it follows each.
-/

namespace ESignSoft.Billing.Click

open ESignSoft.Lib.JsNumber ESignSoft.Lib.JsText ESignSoft.Lib.Table ESignSoft.Lib.Interleaving

/-! ## One order to run callbacks on -/

/-- The digests of the texts that are signed below. -/
def exampleDigests : List (String × String) :=
  [("click-112345click-secret-keyorder-21188000.0002026-09-24 12:00:00", "4a59debefbbcbf7c9d32aa837cea15cd"),
    ("click-112345click-secret-keyorder-2431188000.0012026-09-24 12:00:00",
      "a88ce7134f5d97a5dffd9bd3539a3e37"),
    ("click-112345click-secret-keyorder-21188000.00500000000402026-09-24 12:00:00",
      "4bbd17565de43d857f2d4e241fc0483d"),
    ("click-112345click-secret-keyorder-2431188000.00500000000412026-09-24 12:00:00",
      "83351fc7d4027fe1904190d3567e040c")]

def exampleSetting : Setting where
  CLICK_SECRET_KEY := "click-secret-key"
  CLICK_SERVICE_ID := "12345"
  paymentId order := if order = "order-2" then some 2 else none
  md5 text := (exampleDigests.lookup text).getD ""
  toLowerCase text := String.ofList (text.toList.map Char.toLower)

def exampleTenants : Nat → Tenant := fun _ => ⟨.trial, 50, none⟩

/-- A year of the personal plan. -/
def exampleOrder : Payment := newPayment 2 7 .personal .click 118800000 12 0

theorem fresh_exampleOrder : Fresh [exampleOrder] := ⟨by decide, by decide, by decide⟩

def examplePrepare (amount sign : String) : ClickCallback :=
  ⟨"click-1", "12345", "order-2", "", amount, ClickAction.Prepare, 0, "2026-09-24 12:00:00", sign⟩

def exampleComplete (amount sign : String) (error : Int) : ClickCallback :=
  ⟨"click-1", "12345", "order-2", "43", amount, ClickAction.Complete, error, "2026-09-24 12:00:00", sign⟩

/-- A Prepare by itself, which issues the identifier 43. -/
def runPrepare (p : Nat) : List (Label Choice Outside) :=
  .proc p (.call .prepare (examplePrepare "1188000.00" "4a59debefbbcbf7c9d32aa837cea15cd")) ::
    List.replicate 4 (.proc p (.next 1000 42))

def callComplete (p : Nat) (error : Int) : Label Choice Outside :=
  .proc p (.call .complete (exampleComplete "1188000.00" "a88ce7134f5d97a5dffd9bd3539a3e37" error))

/-! ## No access without a signed Complete -/

/-- What stands behind a payment that a callback marks as paid: a Complete signed with our secret, for our
service, at the price, that quoted an identifier an accepted Prepare of that payment stored. -/
structure SignedFor (setting : Setting) (w : World) (r : Payment) (body : ClickCallback) : Prop where
  provider : r.provider = .click
  order : setting.paymentId body.merchant_trans_id = some r.id
  signed : setting.CLICK_SECRET_KEY ≠ "" ∧
    setting.toLowerCase body.sign_string = setting.toLowerCase (setting.md5 (joined setting body))
  action : body.action = ClickAction.Complete
  service : body.service_id = setting.CLICK_SERVICE_ID
  amount : ∃ value : ℚ, stringToNumber (js body.amount) = .finite value ∧
    |value - r.amountTiyin / 100| < 1 / 200
  prepared : ∃ prepareId : Int, stringToNumber (js body.merchant_prepare_id) = .finite prepareId ∧
    ∃ pr ∈ w.prepared, pr.seen.id = r.id ∧ pr.prepareId = prepareId ∧ Accepted setting w pr

/-- Only the step that activates marks a payment as paid. -/
theorem Moved.paid {setting : Setting} {w w' : World} {pc pc' : Pc} (hw : Sound w.books)
    (h : Moved setting w pc w' pc') {r r' : Payment} (hr : r ∈ w.books.ledger.payments)
    (hr' : r' ∈ w'.books.ledger.payments) (hid : r'.id = r.id) (hunpaid : r.status ≠ .paid)
    (hpaid : r'.status = .paid) :
    ∃ body payment now, pc = .activating body payment now ∧ payment.id = r.id := by
  have hsame : r' ∈ w.books.ledger.payments → False := by
    intro hold
    obtain rfl := eq_of_key_eq hw.ids hold hr hid
    exact hunpaid hpaid
  cases h with
  | ended | started | resolved => exact (hsame hr').elim
  | found | failed =>
      rw [record_books] at hr'
      exact (hsame hr').elim
  | issued body payment prepareId now L hL =>
      exact absurd ((Event.apply_status hw.ids hL hr hr' hid).symm.trans hpaid) hunpaid
  | attached body payment prepareId now L hL =>
      rw [record_books] at hr'
      exact absurd ((Event.apply_status hw.ids hL hr hr' hid).symm.trans hpaid) hunpaid
  | activated body payment now claimed books hrun =>
      rw [record_books] at hr'
      exact ⟨body, payment, now, rfl, (Books.run_paid hw hrun hr hr' hid hunpaid hpaid).1⟩
  | cancelled body payment now reason claimed books hrun =>
      rw [record_books] at hr'
      obtain ⟨-, t, p, now', hc⟩ := Books.run_paid hw hrun hr hr' hid hunpaid hpaid
      cases hc

/-- **No access without a signed Complete.** -/
theorem paid_rests_on_prepare {setting : Setting} {tenants : Nat → Tenant} {payments : List Payment}
    {s s' : System World Pc} {p : Nat} {choice : Choice} (h₀ : Fresh payments)
    (h : Reaches (click setting) (fun _ _ => True) (openClick tenants payments) s)
    (hstep : (click setting).step s (.proc p choice) = some s') :
    (∀ r : Payment, r.provider = .payme →
      (r ∈ s'.shared.books.ledger.payments ↔ r ∈ s.shared.books.ledger.payments)) ∧
    ∀ r ∈ s.shared.books.ledger.payments, ∀ r' ∈ s'.shared.books.ledger.payments, r'.id = r.id →
      r.status ≠ .paid → r'.status = .paid →
      ∃ body payment now, s.procs p = .activating body payment now ∧
        SignedFor setting s.shared r body := by
  have hs := holds_of_reaches h₀ h
  obtain ⟨w', pc', hact, rfl⟩ := Program.step_proc hstep
  have hmoved : Moved setting s.shared (s.procs p) w' pc' := act_moved (p := p) hact
  refine ⟨fun r hprov => (hmoved.writes (hs.proc p)).keeps hs.shared.sound (by rw [hprov]; decide),
    fun r hr r' hr' hid hunpaid hpaid => ?_⟩
  obtain ⟨body, payment, now, hpc, hpid⟩ := hmoved.paid hs.shared.sound hr hr' hid hunpaid hpaid
  have hknows := hs.proc p
  rw [hpc] at hknows
  obtain ⟨hours, -, hquoted, hissued⟩ := hknows
  obtain ⟨value, hvalue, hlt⟩ := verifiedAmount_ok hours.amount
  obtain ⟨prepareId, hstored, hread⟩ := prepareIdMatches_iff.mp hquoted
  obtain ⟨pr, hpr, hprid, hprstored⟩ := hissued prepareId hstored
  obtain ⟨-, r₁, hr₁, hlater⟩ := hours.seen
  -- The payment costs what it cost when the callback read it.
  obtain rfl := eq_of_key_eq hs.shared.sound.ids hr₁ hr (hlater.id.trans hpid)
  refine ⟨body, payment, now, hpc, hours.seen.provider_eq hs.shared.sound hr hpid.symm,
    by rw [hours.names, hpid], ⟨hours.verified.secret, hours.verified.signed⟩, hours.verified.action,
    hours.verified.service.2, ⟨value, hvalue, by rw [hlater.amountTiyin]; exact hlt⟩,
    prepareId, hread, pr, hpr, hprid.trans hpid, hprstored, hs.shared.accepted pr hpr⟩

/-- A payment is prepared and completed. -/
theorem paid_rests_on_prepare_one :
    ∃ s s' : System World Pc,
      (click exampleSetting).run (openClick exampleTenants [exampleOrder])
        (runPrepare 0 ++ [callComplete 1 0, .proc 1 (.next 1500 0), .proc 1 (.next 1500 0)]) = some s ∧
      (click exampleSetting).step s (.proc 1 (.next 1500 0)) = some s' ∧
      s'.shared.books.ledger.payments ≠ s.shared.books.ledger.payments ∧
      ∀ r : Payment, r.provider = .payme →
        (r ∈ s'.shared.books.ledger.payments ↔ r ∈ s.shared.books.ledger.payments) := by
  have hrun : ((click exampleSetting).run (openClick exampleTenants [exampleOrder])
      (runPrepare 0 ++ [callComplete 1 0, .proc 1 (.next 1500 0), .proc 1 (.next 1500 0)])).bind (fun s =>
      ((click exampleSetting).step s (.proc 1 (.next 1500 0))).map fun s' =>
        decide (s'.shared.books.ledger.payments ≠ s.shared.books.ledger.payments)) = some true := by
    decide +kernel
  obtain ⟨s, hs, hrest⟩ := Option.bind_eq_some_iff.mp hrun
  obtain ⟨s', hs', hne⟩ := Option.map_eq_some_iff.mp hrest
  refine ⟨s, s', hs, hs', of_decide_eq_true hne, ?_⟩
  exact (paid_rests_on_prepare fresh_exampleOrder (Reaches.of_run (fun _ _ _ => trivial) hs) hs').1

/-- A payment is paid through a Complete whose signature is the digest in capital letters and whose amount,
as a decimal, is more than half a hundredth off: the number it is read as is not. -/
theorem paid_in_capitals :
    ∃ (s s' : System World Pc) (r r' : Payment) (body : ClickCallback) (payment : Payment) (now : Int) (q : ℚ),
      Reaches (click exampleSetting) (fun _ _ => True) (openClick exampleTenants [exampleOrder]) s ∧
      (click exampleSetting).step s (.proc 1 (.next 1500 0)) = some s' ∧
      r ∈ s.shared.books.ledger.payments ∧ r' ∈ s'.shared.books.ledger.payments ∧ r'.id = r.id ∧
      r.status = .pending ∧ r'.status = .paid ∧ s.procs 1 = .activating body payment now ∧
      body.sign_string ≠ clickSignature exampleSetting body ∧
      decimalLiteral (js body.amount) = some q ∧ 1 / 200 < |q - r.amountTiyin / 100| := by
  let body := exampleComplete "1188000.005000000004" "83351FC7D4027FE1904190D3567E040C" 0
  have hrun : ((click exampleSetting).run (openClick exampleTenants [exampleOrder])
      (.proc 0 (.call .prepare (examplePrepare "1188000.005000000004" "4bbd17565de43d857f2d4e241fc0483d")) ::
        List.replicate 4 (.proc 0 (.next 1000 42)) ++
        [.proc 1 (.call .complete body), .proc 1 (.next 1500 0), .proc 1 (.next 1500 0)])).bind (fun s =>
      ((click exampleSetting).step s (.proc 1 (.next 1500 0))).map fun s' =>
        (s.shared.books.ledger.payments.map fun r => (r.id, r.status, r.amountTiyin),
          s'.shared.books.ledger.payments.map fun r => (r.id, r.status),
          match s.procs 1 with
          | .activating body _ _ => some body
          | _ => none)) =
      some ([(2, .pending, 118800000)], [(2, .paid)], some body) := by
    decide +kernel
  obtain ⟨s, hs, hrest⟩ := Option.bind_eq_some_iff.mp hrun
  obtain ⟨s', hs', hfacts⟩ := Option.map_eq_some_iff.mp hrest
  simp only [Prod.mk.injEq] at hfacts
  obtain ⟨hbefore, hafter, hbody⟩ := hfacts
  obtain ⟨r, hr, hrfacts⟩ := List.mem_map.mp (hbefore ▸ List.mem_cons_self :
    ((2, PaymentStatus.pending, 118800000) : Nat × PaymentStatus × Int) ∈ _)
  obtain ⟨r', hr', hrfacts'⟩ := List.mem_map.mp (hafter ▸ List.mem_cons_self :
    ((2, PaymentStatus.paid) : Nat × PaymentStatus) ∈ _)
  simp only [Prod.mk.injEq] at hrfacts hrfacts'
  obtain ⟨payment, now, hpc⟩ : ∃ payment now, s.procs 1 = .activating body payment now := by
    split at hbody
    · rename_i body' payment now hpc
      obtain rfl := Option.some.inj hbody
      exact ⟨payment, now, hpc⟩
    · cases hbody
  refine ⟨s, s', r, r', body, payment, now, 1188000005000000004 / 1000000000000,
    Reaches.of_run (fun _ _ _ => trivial) hs, hs', hr, hr', hrfacts'.1.trans hrfacts.1.symm, hrfacts.2.1,
    hrfacts'.2, hpc, by decide +kernel, by decide +kernel, ?_⟩
  rw [hrfacts.2.2]
  norm_num

/-! ## One identifier for each payment -/

/-- The payment has the identifier. -/
def HasId (L : Ledger) (payment : Nat) (prepareId : Int) : Prop :=
  ∃ r ∈ L.payments, r.provider = .click ∧ r.id = payment ∧ r.clickPrepareId = some prepareId

/-- Every identifier that was answered for a payment is the same one, the one that is stored, and a
Complete that quotes its text passes the check on it. -/
structure StableIds (w : World) : Prop where
  once : ∀ a ∈ w.answers, ∀ a' ∈ w.answers, a.seen.id = a'.seen.id → ∀ prepareId prepareId',
    a.result.merchant_prepare_id = some prepareId → a'.result.merchant_prepare_id = some prepareId' →
    prepareId = prepareId'
  stored : ∀ a ∈ w.answers, ∀ prepareId, a.result.merchant_prepare_id = some prepareId →
    HasId w.books.ledger a.seen.id prepareId
  quoted : ∀ a ∈ w.answers, ∀ prepareId, a.result.merchant_prepare_id = some prepareId →
    ∀ r ∈ w.books.ledger.payments, r.id = a.seen.id → ∀ body : ClickCallback,
    js body.merchant_prepare_id = intText prepareId → prepareIdMatches body r = true

/-- Where Prepare stores its identifier, the payment has none, or this one already. -/
def unissued (s : System World Pc) : Label Choice Outside → Bool
  | .proc p (.next _ _) =>
      match s.procs p with
      | .issuing _ payment prepareId => s.shared.books.ledger.payments.all fun r =>
          r.id != payment.id || r.clickPrepareId == none || r.clickPrepareId == some prepareId
      | _ => true
  | _ => true

/-- Click's payments in later states, with the identifiers they had. -/
def Keeps (w w' : World) : Prop :=
  ∀ r ∈ w.books.ledger.payments, r.provider = .click → ∃ r' ∈ w'.books.ledger.payments,
    Later r r' ∧ ∀ prepareId, r.clickPrepareId = some prepareId → r'.clickPrepareId = some prepareId

theorem Keeps.of_books_eq {w w' : World} (h : w'.books = w.books) : Keeps w w' := by
  intro r hr _
  rw [h]
  exact ⟨r, hr, Later.refl r, fun _ h => h⟩

theorem HasId.keeps {w w' : World} (hw : Keeps w w') {payment : Nat} {prepareId : Int}
    (h : HasId w.books.ledger payment prepareId) : HasId w'.books.ledger payment prepareId := by
  obtain ⟨r, hr, hprov, rfl, hid⟩ := h
  obtain ⟨r', hr', hlater, hkept⟩ := hw r hr hprov
  exact ⟨r', hr', hlater.provider.trans hprov, hlater.id, hkept prepareId hid⟩

/-- A step under the condition keeps every identifier where it is. -/
theorem Moved.keeps {setting : Setting} {s : System World Pc} {p : Nat} {w' : World} {pc' : Pc}
    {now : Int} {draw : Fin 1000000000} (hw : Sound s.shared.books)
    (hok : unissued s (.proc p (.next now draw)) = true)
    (h : Moved setting s.shared (s.procs p) w' pc') : Keeps s.shared w' := by
  generalize hpc : s.procs p = pc at h
  have hrun : ∀ c claimed books, s.shared.books.run c = some (claimed, books) → w'.books = books →
      Keeps s.shared w' := by
    intro c claimed books hrun hbooks r hr _
    obtain ⟨r', hr', hlater, hnotes⟩ := (Books.run_spec hw.ids hrun).later hw r hr
    exact ⟨r', hbooks ▸ hr', hlater, fun id hid => hnotes.2.2.trans hid⟩
  cases h with
  | ended | started | resolved => exact Keeps.of_books_eq rfl
  | found | failed => exact Keeps.of_books_eq (record_books _ _ _ _ _ _)
  | activated body payment now claimed books hbooks => exact hrun _ _ _ hbooks (record_books _ _ _ _ _ _)
  | cancelled body payment now reason claimed books hbooks =>
      exact hrun _ _ _ hbooks (record_books _ _ _ _ _ _)
  | attached body payment prepareId now L hL =>
      intro r hr _
      rw [record_books]
      by_cases hid : r.id = payment.id
      · refine ⟨_, (mem_attachProviderTxn hL).mpr (Or.inl ⟨r, hr, hid, rfl⟩), ?_, fun _ h => h⟩
        exact ⟨rfl, rfl, rfl, rfl, fun _ h => h, fun _ h => (by cases h), fun h => h,
          fun h => ⟨h, rfl, rfl, rfl⟩⟩
      · exact ⟨r, (mem_attachProviderTxn hL).mpr (Or.inr ⟨hr, hid⟩), Later.refl r, fun _ h => h⟩
  | issued body payment prepareId now L hL =>
      intro r hr _
      by_cases hid : r.id = payment.id
      · refine ⟨_, (mem_attachClickPrepareId hL).mpr (Or.inl ⟨r, hr, hid, rfl⟩), ?_, fun stored hstored => ?_⟩
        · exact ⟨rfl, rfl, rfl, rfl, fun _ h => h, fun h => h, fun h => h, fun h => ⟨h, rfl, rfl, rfl⟩⟩
        · -- Under the condition the identifier written over is the one written.
          have hcheck := List.all_eq_true.mp (by simpa only [unissued, hpc] using hok) r hr
          simp only [hid, bne_self_eq_false, Bool.false_or, hstored, Bool.or_eq_true, beq_iff_eq,
            reduceCtorEq, false_or] at hcheck
          exact hcheck.symm
      · exact ⟨r, (mem_attachClickPrepareId hL).mpr (Or.inr ⟨hr, hid⟩), Later.refl r, fun _ h => h⟩

/-- What happens beside the callbacks touches no identifier of Click's. -/
theorem env_keeps {o : Outside} {w w' : World} (hw : Sound w.books) (h : env o w = some w') :
    Keeps w w' := by
  obtain ⟨books, hbooks, rfl⟩ := Option.map_eq_some_iff.mp h
  intro r hr hprov
  exact ⟨r, (mem_outside hw hbooks hprov).1 hr, Later.refl r, fun _ h => h⟩

/-- The identifier a callback is going to answer is the one its payment has. -/
def Held (L : Ledger) : Pc → Prop
  | .attaching _ payment prepareId _ => HasId L payment.id prepareId
  | .activating _ payment _ => ∀ prepareId, payment.clickPrepareId = some prepareId →
      HasId L payment.id prepareId
  | _ => True

theorem Held.keeps {w w' : World} (hw : Keeps w w') {pc : Pc} (h : Held w.books.ledger pc) :
    Held w'.books.ledger pc := by
  cases pc with
  | attaching body payment prepareId now => exact HasId.keeps hw h
  | activating body payment now => exact fun prepareId hid => (h prepareId hid).keeps hw
  | _ => trivial

/-- A callback that goes on has its payment's identifier. -/
theorem Moved.held {setting : Setting} {w w' : World} {pc pc' : Pc} (hkeeps : Keeps w w')
    (hknows : Knows setting w pc) (h : Moved setting w pc w' pc') : Held w'.books.ledger pc' := by
  cases h with
  | ended _ _ hend =>
      rcases hend with rfl | ⟨e, rfl⟩
      · trivial
      · trivial
  | started | resolved | failed | attached | activated | cancelled => trivial
  | found method body tenant id payment _ hfind hdecided _ =>
      obtain ⟨hmem, -, -, hprov⟩ := find_eq_some hfind
      refine Held.keeps hkeeps ?_
      cases hdecided with
      | reuse prepareId now hmethod hamount hpending hid => exact ⟨payment, hmem, hprov, rfl, hid⟩
      | activate now hmethod hamount hquoted hpending =>
          exact fun prepareId hid => ⟨payment, hmem, hprov, rfl, hid⟩
      | _ => trivial
  | issued body payment prepareId now L hL =>
      obtain ⟨hprov, r, hr, hlater⟩ := hknows.1.seen
      exact ⟨_, (mem_attachClickPrepareId hL).mpr (Or.inl ⟨r, hr, hlater.id, rfl⟩),
        hlater.provider.trans hprov, hlater.id, rfl⟩

/-- The identifier that was answered is the one the payment has. -/
def Tells (L : Ledger) (a : Answer) : Prop :=
  ∀ prepareId, a.result.merchant_prepare_id = some prepareId → HasId L a.seen.id prepareId

theorem decided_refused {method : Method} {body : ClickCallback} {payment : Payment} {result : ClickResult}
    (h : Decided method body payment (.answered result)) : result.merchant_prepare_id = none := by
  cases h with
  | refused _ herror hnone => exact hnone

/-- An answer a step adds tells the identifier the payment has. -/
theorem Moved.tells {setting : Setting} {w w' : World} {pc pc' : Pc} (hkeeps : Keeps w w')
    (hheld : Held w.books.ledger pc) (h : Moved setting w pc w' pc') {a : Answer} (ha : a ∈ w'.answers) :
    a ∈ w.answers ∨ Tells w'.books.ledger a := by
  cases h with
  | ended | started | resolved | issued => exact Or.inl ha
  | found method body tenant id payment _ hfind hdecided _ =>
      rcases mem_record ha with hold | ⟨result, rfl, rfl⟩
      · exact Or.inl hold
      · refine Or.inr fun prepareId hid => ?_
        rw [show result.merchant_prepare_id = none from decided_refused hdecided] at hid
        cases hid
  | failed pc method body payment hpc =>
      rcases mem_record ha with hold | ⟨result, hresult, rfl⟩
      · exact Or.inl hold
      · obtain rfl := Pc.answered.inj hresult
        exact Or.inr fun prepareId hid => (by cases hid)
  | attached body payment prepareId now L hL =>
      rcases mem_record ha with hold | ⟨result, hresult, rfl⟩
      · exact Or.inl hold
      · obtain rfl := Pc.answered.inj hresult
        refine Or.inr fun stored hstored => ?_
        obtain rfl : prepareId = stored := Option.some.inj hstored
        exact HasId.keeps hkeeps hheld
  | activated body payment now claimed books hrun =>
      rcases mem_record ha with hold | ⟨result, hresult, rfl⟩
      · exact Or.inl hold
      · obtain rfl := Pc.answered.inj hresult
        exact Or.inr fun stored hstored => (hheld stored hstored).keeps hkeeps
  | cancelled body payment now reason claimed books hrun =>
      rcases mem_record ha with hold | ⟨result, hresult, rfl⟩
      · exact Or.inl hold
      · obtain rfl := Pc.answered.inj hresult
        exact Or.inr fun prepareId hid => (by cases hid)

/-- The callbacks side by side, where no Prepare writes over another's identifier. -/
theorem outline_unissued (setting : Setting) :
    ProofOutline (click setting) (fun s l => unissued s l = true)
      (fun w => Invariant setting w ∧ ∀ a ∈ w.answers, Tells w.books.ledger a)
      (fun w _ pc => Knows setting w pc ∧ Held w.books.ledger pc) (fun _ _ => True) where
  act s p choice w' pc' hs hok hact := by
    have hmoved : Moved setting s.shared (s.procs p) w' pc' := act_moved (p := p) hact
    obtain ⟨hinv, htells⟩ := hs.shared
    obtain ⟨hknows, hheld⟩ := hs.proc p
    have hgrows := hmoved.grows hinv.sound hknows
    have hkeeps : Keeps s.shared w' := by
      cases choice with
      | next now draw => exact hmoved.keeps hinv.sound hok
      | _ => exact Keeps.of_books_eq (congrArg World.books (act_rests (p := p) hact (by rintro _ _ ⟨⟩)).1)
    refine ⟨⟨hmoved.invariant hinv hknows, fun a ha => ?_⟩,
      ⟨hmoved.knows hinv hknows, hmoved.held hkeeps hknows⟩,
      fun q _ => ⟨(hs.proc q).1.grows hgrows, (hs.proc q).2.keeps hkeeps⟩, fun _ _ => ⟨trivial, trivial⟩⟩
    rcases hmoved.tells hkeeps hheld ha with hold | hnew
    · exact fun prepareId hid => (htells a hold prepareId hid).keeps hkeeps
    · exact hnew
  env s o w' hs _ henv := by
    obtain ⟨hinv, htells⟩ := hs.shared
    obtain ⟨hinv', hgrows⟩ := env_spec hinv henv
    have hkeeps := env_keeps hinv.sound henv
    refine ⟨⟨hinv', fun a ha prepareId hid => ?_⟩,
      fun q => ⟨(hs.proc q).1.grows hgrows, (hs.proc q).2.keeps hkeeps⟩⟩
    obtain ⟨books, -, rfl⟩ := Option.map_eq_some_iff.mp henv
    exact (htells a ha prepareId hid).keeps hkeeps

/-- **The identifiers that are answered are stable**, as long as no Prepare writes over the identifier of
another. -/
theorem prepare_ids_stable {setting : Setting} {tenants : Nat → Tenant} {payments : List Payment}
    {s : System World Pc} (h₀ : Fresh payments)
    (h : Reaches (click setting) (fun s l => unissued s l = true) (openClick tenants payments) s) :
    StableIds s.shared := by
  have hs := (outline_unissued setting).holds_of_reaches h
    ⟨⟨(holds_open h₀ tenants).shared, fun a ha => (List.not_mem_nil ha).elim⟩,
      fun _ => ⟨trivial, trivial⟩, fun _ _ _ => trivial⟩
  obtain ⟨hinv, htells⟩ := hs.shared
  refine ⟨fun a ha a' ha' hsame prepareId prepareId' hid hid' => ?_, htells,
    fun a ha prepareId hid r hr hrid body htext => ?_⟩
  · obtain ⟨r, hr, -, hrid, hstored⟩ := htells a ha prepareId hid
    obtain ⟨r', hr', -, hrid', hstored'⟩ := htells a' ha' prepareId' hid'
    obtain rfl := eq_of_key_eq hinv.sound.ids hr hr' (hrid.trans (hsame.trans hrid'.symm))
    exact Option.some.inj (hstored.symm.trans hstored')
  · obtain ⟨q, hq, hprov, hqid, hstored⟩ := htells a ha prepareId hid
    obtain rfl := eq_of_key_eq hinv.sound.ids hq hr (hqid.trans hrid.symm)
    obtain ⟨pr, hpr, -, rfl⟩ := hinv.issued q hq hprov prepareId hstored
    exact prepareIdMatches_text hstored (hinv.accepted pr hpr).bounds.1 (hinv.accepted pr hpr).bounds.2 htext

/-- A Prepare repeated after the first has stored its identifier, with another random number. -/
theorem prepare_ids_stable_repeated :
    ∃ s : System World Pc,
      (click exampleSetting).runIf unissued (openClick exampleTenants [exampleOrder])
        (runPrepare 0 ++ .proc 1 (.call .prepare (examplePrepare "1188000.00"
          "4a59debefbbcbf7c9d32aa837cea15cd")) :: List.replicate 3 (.proc 1 (.next 1100 99))) = some s ∧
      s.shared.answers.map (fun a => a.result.merchant_prepare_id) = [some 43, some 43] ∧
      StableIds s.shared := by
  have hrun : ((click exampleSetting).runIf unissued (openClick exampleTenants [exampleOrder])
      (runPrepare 0 ++ .proc 1 (.call .prepare (examplePrepare "1188000.00"
        "4a59debefbbcbf7c9d32aa837cea15cd")) :: List.replicate 3 (.proc 1 (.next 1100 99)))).map
      (fun s => s.shared.answers.map fun a => a.result.merchant_prepare_id) = some [some 43, some 43] := by
    decide +kernel
  obtain ⟨s, hs, hanswers⟩ := Option.map_eq_some_iff.mp hrun
  exact ⟨s, hs, hanswers, prepare_ids_stable fresh_exampleOrder (Reaches.of_runIf hs)⟩

/-- Two Prepares read the payment before either stores an identifier: each answers its own. -/
theorem prepare_ids_differ :
    ∃ s : System World Pc,
      Reaches (click exampleSetting) (fun _ _ => True) (openClick exampleTenants [exampleOrder]) s ∧
      ¬ StableIds s.shared := by
  let call (p : Nat) : Label Choice Outside :=
    .proc p (.call .prepare (examplePrepare "1188000.00" "4a59debefbbcbf7c9d32aa837cea15cd"))
  have hrun : ((click exampleSetting).run (openClick exampleTenants [exampleOrder])
      [call 0, call 1, .proc 0 (.next 1000 42), .proc 1 (.next 1000 99), .proc 0 (.next 1000 42),
        .proc 1 (.next 1000 99), .proc 0 (.next 1000 0), .proc 1 (.next 1000 0), .proc 0 (.next 1000 0),
        .proc 1 (.next 1000 0)]).map (fun s =>
          (s.shared.answers.map fun a => (a.seen.id, a.result.merchant_prepare_id),
            s.shared.books.ledger.payments.map Payment.clickPrepareId)) =
      some ([(2, some 100), (2, some 43)], [some 100]) := by
    decide +kernel
  obtain ⟨s, hs, hfacts⟩ := Option.map_eq_some_iff.mp hrun
  obtain ⟨hanswers, hstored⟩ := Prod.mk.inj hfacts
  refine ⟨s, Reaches.of_run (fun _ _ _ => trivial) hs, fun hstable => ?_⟩
  have hmem : ((2, some 43) : Nat × Option Int) ∈
      s.shared.answers.map fun a => (a.seen.id, a.result.merchant_prepare_id) := by
    rw [hanswers]
    decide
  obtain ⟨a, ha, hfacts⟩ := List.mem_map.mp hmem
  obtain ⟨-, hid⟩ := Prod.mk.inj hfacts
  obtain ⟨r, hr, -, -, hrid⟩ := hstable.stored a ha 43 hid
  have hrow : r.clickPrepareId ∈ s.shared.books.ledger.payments.map Payment.clickPrepareId :=
    List.mem_map_of_mem hr
  rw [hstored, hrid] at hrow
  exact absurd hrow (by decide)

/-- A Prepare that answers after its identifier was written over breaks the promise. -/
theorem not_stableIds_of_overwritten {setting : Setting} {tenants : Nat → Tenant}
    {payments : List Payment} {s s' : System World Pc} {p : Nat} {now : Int} {draw : Fin 1000000000}
    {body : ClickCallback} {payment r : Payment} {prepareId attachedAt stored : Int} (h₀ : Fresh payments)
    (h : Reaches (click setting) (fun _ _ => True) (openClick tenants payments) s)
    (hpc : s.procs p = .attaching body payment prepareId attachedAt)
    (hr : r ∈ s.shared.books.ledger.payments) (hid : r.id = payment.id)
    (hstored : r.clickPrepareId = some stored) (hother : stored ≠ prepareId)
    (hstep : (click setting).step s (.proc p (.next now draw)) = some s')
    (hanswer : s'.procs p = .answered (ok (some prepareId) none)) : ¬ StableIds s'.shared := by
  intro hstable
  have hs := holds_of_reaches h₀ h
  have hsound := hs.shared.sound
  obtain ⟨w', pc', hact, rfl⟩ := Program.step_proc hstep
  have hmoved : Moved setting s.shared (s.procs p) w' pc' := act_moved (p := p) hact
  have hsound' := (hmoved.invariant hs.shared (hs.proc p)).sound
  obtain rfl : pc' = .answered (ok (some prepareId) none) := by simpa using hanswer
  rw [hpc] at hact
  simp only [click, act] at hact
  cases hL : (Event.attachProviderTxn payment.id body.click_trans_id attachedAt).apply s.shared.books.ledger with
  | none =>
      rw [hL] at hact
      obtain ⟨-, hpc'⟩ := Prod.mk.inj (Option.some.inj hact)
      cases hpc'
  | some L =>
      rw [hL] at hact
      obtain ⟨rfl, -⟩ := Prod.mk.inj (Option.some.inj hact)
      obtain ⟨q, hq, -, hqid, hqstored⟩ := hstable.stored _ List.mem_cons_self prepareId rfl
      have hnew : { r with
          providerTxnId := some body.click_trans_id
          providerCreatedAt := some attachedAt } ∈ L.payments :=
        (mem_attachProviderTxn hL).mpr (Or.inl ⟨r, hr, hid, rfl⟩)
      obtain rfl := eq_of_key_eq hsound'.ids hq hnew (hqid.trans hid.symm)
      exact hother (Option.some.inj (hstored.symm.trans hqstored))

/-! ## Success and AlreadyPaid -/

/-- What a Complete answered is what happened: Success left or found the payment paid by an activation, and
a Complete for a payment it read as paid answered AlreadyPaid and changed nothing. -/
structure CompleteAnswers (w : World) : Prop where
  success : ∀ a ∈ w.answers, a.method = .complete → a.result.error = ClickError.Success →
    ∃ r ∈ a.after.ledger.payments, r.id = a.seen.id ∧ r.status = .paid ∧
      ∃ g ∈ a.after.grants, g.payment = r.id
  repeated : ∀ a ∈ w.answers, a.method = .complete → verifiedAmount a.body a.seen = .ok () →
    prepareIdMatches a.body a.seen = true → a.seen.status = .paid →
    a.result = fail ClickError.AlreadyPaid ∧ a.after = a.before

/-- Where a Complete at the price and with the identifier reads a payment that is paid, Click reports no
failure; where one activates, the payment was not cancelled since it was read. -/
def settled (s : System World Pc) : Label Choice Outside → Bool
  | .proc p (.next _ _) =>
      match s.procs p with
      | .finding .complete body tenant id =>
          match s.shared.books.ledger.find tenant id .click with
          | some payment => !(verifiedAmount body payment).isOk || !prepareIdMatches body payment ||
              payment.status != .paid || decide (0 ≤ body.error)
          | none => true
      | .activating _ payment _ => s.shared.books.ledger.payments.all fun r =>
          r.id != payment.id || r.status != .cancelled
      | _ => true
  | _ => true

/-- Where Click reports no failure, and only there, a Complete for a payment that is paid is answered
AlreadyPaid. -/
theorem decideOn_paid_iff {body : ClickCallback} {payment : Payment} {now : Int} {draw : Fin 1000000000}
    (hamount : verifiedAmount body payment = .ok ()) (hquoted : prepareIdMatches body payment = true)
    (hpaid : payment.status = .paid) :
    decideOn .complete body payment now draw = .answered (fail ClickError.AlreadyPaid) ↔
      ¬ body.error < 0 := by
  constructor
  · intro h herror
    simp [decideOn, hamount, completeOn, hquoted, herror] at h
  · exact decideOn_paid hamount hquoted hpaid

/-- The step that activates leaves the payment paid exactly where it was not cancelled. -/
theorem activated_paid_iff {b b' : Books} {payment r : Payment} {now : Int} {claimed : Bool}
    (hb : Sound b) (hb' : Sound b') (hr : r ∈ b.ledger.payments) (hlater : Later payment r)
    (hran : Books.Ran b (.activate payment.tenantId payment.id now) claimed b') :
    (∃ r' ∈ b'.ledger.payments, r'.id = payment.id ∧ r'.status = .paid) ↔ r.status ≠ .cancelled := by
  obtain ⟨r', hr', hid', -, hstatus, -⟩ := hran.activate_row hb hr hlater.id hlater.tenantId
  have hrow : (∃ r' ∈ b'.ledger.payments, r'.id = payment.id ∧ r'.status = .paid) ↔ r'.status = .paid := by
    constructor
    · rintro ⟨q, hq, hqid, hqpaid⟩
      obtain rfl := eq_of_key_eq hb'.ids hq hr' (hqid.trans hid'.symm)
      exact hqpaid
    · intro h
      exact ⟨r', hr', hid', h⟩
  rw [hrow, hstatus]
  cases r.status <;> simp

/-- What the condition says of a Complete that has read a paid payment and passes the two checks. -/
theorem error_of_settled {s : System World Pc} {p : Nat} {now : Int} {draw : Fin 1000000000}
    (hok : settled s (.proc p (.next now draw)) = true) {body : ClickCallback} {tenant id : Nat} {payment : Payment}
    (hpc : s.procs p = .finding .complete body tenant id)
    (hfind : s.shared.books.ledger.find tenant id .click = some payment)
    (hamount : verifiedAmount body payment = .ok ()) (hquoted : prepareIdMatches body payment = true)
    (hpaid : payment.status = .paid) : ¬ body.error < 0 := by
  simp only [settled, hpc, hfind, hamount, hquoted, hpaid, Except.isOk, Except.toBool, Bool.not_true, bne_self_eq_false,
    Bool.false_or, decide_eq_true_eq] at hok
  exact not_lt.mpr hok

/-- A callback that cancels did not read the payment as paid. -/
def Calm : Pc → Prop
  | .cancelling _ payment _ => payment.status ≠ .paid
  | _ => True

/-- One answer of a Complete is what happened. -/
structure Right (a : Answer) : Prop where
  success : a.method = .complete → a.result.error = ClickError.Success →
    ∃ r ∈ a.after.ledger.payments, r.id = a.seen.id ∧ r.status = .paid ∧
      ∃ g ∈ a.after.grants, g.payment = r.id
  repeated : a.method = .complete → verifiedAmount a.body a.seen = .ok () →
    prepareIdMatches a.body a.seen = true → a.seen.status = .paid →
    a.result = fail ClickError.AlreadyPaid ∧ a.after = a.before

theorem Moved.calm {setting : Setting} {s : System World Pc} {p : Nat} {w' : World} {pc' : Pc} {now : Int}
    {draw : Fin 1000000000} (hok : settled s (.proc p (.next now draw)) = true)
    (h : Moved setting s.shared (s.procs p) w' pc') : Calm pc' := by
  generalize hpc : s.procs p = pc at h
  cases h with
  | ended _ _ hend =>
      rcases hend with rfl | ⟨e, rfl⟩
      · trivial
      · trivial
  | started | resolved | failed | issued | attached | activated | cancelled => trivial
  | found method body tenant id payment _ hfind hdecided _ =>
      cases hdecided with
      | cancel now hmethod hamount hquoted herror =>
          subst hmethod
          exact fun hpaid => error_of_settled hok hpc hfind hamount hquoted hpaid herror
      | _ => trivial

/-- An answer a step adds under the condition is right. -/
theorem Moved.right {setting : Setting} {s : System World Pc} {p : Nat} {w' : World} {pc' : Pc} {now : Int}
    {draw : Fin 1000000000} (hw : Invariant setting s.shared)
    (hknows : Knows setting s.shared (s.procs p)) (hcalm : Calm (s.procs p))
    (hok : settled s (.proc p (.next now draw)) = true) (h : Moved setting s.shared (s.procs p) w' pc')
    {a : Answer} (ha : a ∈ w'.answers) : a ∈ s.shared.answers ∨ Right a := by
  have hsound' := (h.invariant hw hknows).sound
  generalize hpc : s.procs p = pc at h hknows hcalm
  cases h with
  | ended | started | resolved | issued => exact Or.inl ha
  | found method body tenant id payment _ hfind hdecided hpaid =>
      rcases mem_record ha with hold | ⟨result, rfl, rfl⟩
      · exact Or.inl hold
      · refine Or.inr ⟨fun _ hsuccess => ?_, fun hmethod hamount hquoted hstatus => ?_⟩
        · cases hdecided with
          | refused _ herror _ => exact absurd hsuccess herror
        · subst hmethod
          have herror := error_of_settled hok hpc hfind hamount hquoted hstatus
          exact ⟨Pc.answered.inj (hpaid rfl hamount hquoted hstatus herror), rfl⟩
  | failed pc method body payment hgone =>
      rcases mem_record ha with hold | ⟨result, hresult, rfl⟩
      · exact Or.inl hold
      · obtain rfl := Pc.answered.inj hresult
        have herror : failedToUpdate.error ≠ ClickError.Success := by decide
        refine Or.inr ⟨fun _ hsuccess => absurd hsuccess herror, fun hmethod _ _ hstatus => ?_⟩
        -- A Complete that fails was activating a pending payment, or cancelling one not read as paid.
        rcases hgone with ⟨rfl, -⟩ | ⟨rfl, -⟩ | ⟨-, now', rfl⟩ | ⟨-, now', rfl⟩
        · cases hmethod
        · cases hmethod
        · have hpending : payment.status = .pending := hknows.2.1
          rw [show payment.status = .paid from hstatus] at hpending
          cases hpending
        · exact absurd hstatus hcalm
  | attached body payment prepareId now' L hL =>
      rcases mem_record ha with hold | ⟨result, hresult, rfl⟩
      · exact Or.inl hold
      · exact Or.inr ⟨fun h => (by cases h), fun h => (by cases h)⟩
  | activated body payment now' claimed books hrun =>
      rcases mem_record ha with hold | ⟨result, hresult, rfl⟩
      · exact Or.inl hold
      · obtain ⟨hours, hpending, -, -⟩ := hknows
        obtain ⟨-, r, hr, hlater⟩ := hours.seen
        have hcheck := List.all_eq_true.mp (by simpa only [settled, hpc] using hok) r hr
        simp only [hlater.id, bne_self_eq_false, Bool.false_or, bne_iff_ne, ne_eq] at hcheck
        obtain ⟨r', hr', hid', hpaid⟩ := (activated_paid_iff hw.sound hsound' hr hlater
          (Books.run_spec hw.sound.ids hrun)).mpr hcheck
        have hstamps := hsound'.stamps r' hr'
        refine Or.inr ⟨fun _ _ => ⟨r', hr', hid', hpaid, hstamps.activated.mp (hstamps.paid hpaid).1⟩,
          fun _ _ _ hstatus => ?_⟩
        rw [show payment.status = .paid from hstatus] at hpending
        cases hpending
  | cancelled body payment now' reason claimed books hrun =>
      rcases mem_record ha with hold | ⟨result, hresult, rfl⟩
      · exact Or.inl hold
      · obtain rfl := Pc.answered.inj hresult
        have herror : (fail ClickError.TransactionCancelled).error ≠ ClickError.Success := by decide
        exact Or.inr ⟨fun _ hsuccess => absurd hsuccess herror, fun _ _ _ hstatus => absurd hstatus hcalm⟩

/-- The callbacks side by side, where nothing is cancelled under a Complete that activates and no failure
is reported for a payment that was paid. -/
theorem outline_settled (setting : Setting) :
    ProofOutline (click setting) (fun s l => settled s l = true)
      (fun w => Invariant setting w ∧ ∀ a ∈ w.answers, Right a)
      (fun w _ pc => Knows setting w pc ∧ Calm pc) (fun _ _ => True) where
  act s p choice w' pc' hs hok hact := by
    have hmoved : Moved setting s.shared (s.procs p) w' pc' := act_moved (p := p) hact
    obtain ⟨hinv, hright⟩ := hs.shared
    obtain ⟨hknows, hcalm⟩ := hs.proc p
    have hgrows := hmoved.grows hinv.sound hknows
    have hown : (∀ a ∈ w'.answers, Right a) ∧ Calm pc' := by
      cases choice with
      | next now draw =>
          refine ⟨fun a ha => ?_, hmoved.calm hok⟩
          rcases hmoved.right hinv hknows hcalm hok ha with hold | hnew
          · exact hright a hold
          · exact hnew
      | _ =>
          obtain ⟨rfl, hcalm'⟩ := act_rests (p := p) hact (by rintro _ _ ⟨⟩)
          refine ⟨hright, ?_⟩
          cases pc' with
          | cancelling => exact hcalm'.elim
          | _ => trivial
    exact ⟨⟨hmoved.invariant hinv hknows, hown.1⟩, ⟨hmoved.knows hinv hknows, hown.2⟩,
      fun q _ => ⟨(hs.proc q).1.grows hgrows, (hs.proc q).2⟩, fun _ _ => ⟨trivial, trivial⟩⟩
  env s o w' hs _ henv := by
    obtain ⟨hinv, hright⟩ := hs.shared
    obtain ⟨hinv', hgrows⟩ := env_spec hinv henv
    obtain ⟨books, -, rfl⟩ := Option.map_eq_some_iff.mp henv
    exact ⟨⟨hinv', hright⟩, fun q => ⟨(hs.proc q).1.grows hgrows, (hs.proc q).2⟩⟩

/-- **Success and AlreadyPaid are what happened**, as long as no payment is cancelled under a Complete that
is about to activate it and no failure is reported for a payment that was paid. -/
theorem complete_answers {setting : Setting} {tenants : Nat → Tenant} {payments : List Payment}
    {s : System World Pc} (h₀ : Fresh payments)
    (h : Reaches (click setting) (fun s l => settled s l = true) (openClick tenants payments) s) :
    CompleteAnswers s.shared := by
  have hs := (outline_settled setting).holds_of_reaches h
    ⟨⟨(holds_open h₀ tenants).shared, fun a ha => (List.not_mem_nil ha).elim⟩,
      fun _ => ⟨trivial, trivial⟩, fun _ _ _ => trivial⟩
  exact ⟨fun a ha => (hs.shared.2 a ha).success, fun a ha => (hs.shared.2 a ha).repeated⟩

/-- A payment completed, and completed again. -/
theorem complete_answers_repeated :
    ∃ s : System World Pc,
      (click exampleSetting).runIf settled (openClick exampleTenants [exampleOrder])
        (runPrepare 0 ++ callComplete 1 0 :: List.replicate 3 (.proc 1 (.next 1500 0)) ++
          callComplete 2 0 :: List.replicate 2 (.proc 2 (.next 1600 0))) = some s ∧
      s.shared.answers.map (fun a => a.result.error) = [-4, 0, 0] ∧ CompleteAnswers s.shared := by
  have hrun : ((click exampleSetting).runIf settled (openClick exampleTenants [exampleOrder])
      (runPrepare 0 ++ callComplete 1 0 :: List.replicate 3 (.proc 1 (.next 1500 0)) ++
        callComplete 2 0 :: List.replicate 2 (.proc 2 (.next 1600 0)))).map
      (fun s => s.shared.answers.map fun a => a.result.error) = some [-4, 0, 0] := by
    decide +kernel
  obtain ⟨s, hs, hanswers⟩ := Option.map_eq_some_iff.mp hrun
  exact ⟨s, hs, hanswers, complete_answers fresh_exampleOrder (Reaches.of_runIf hs)⟩

/-- A Complete reads the payment pending, another one with a failure cancels it, and the first answers
Success for a payment nobody activated; and a Complete with a failure, for a payment that is paid, takes
its period back. -/
theorem success_for_cancelled :
    (∃ s : System World Pc,
      Reaches (click exampleSetting) (fun _ _ => True) (openClick exampleTenants [exampleOrder]) s ∧
      ¬ CompleteAnswers s.shared) ∧
    ∃ s : System World Pc,
      Reaches (click exampleSetting) (fun _ _ => True) (openClick exampleTenants [exampleOrder]) s ∧
      ¬ CompleteAnswers s.shared ∧ ∃ a ∈ s.shared.answers,
        a.seen.status = .paid ∧ (a.before.ledger.tenants 7).paidUntil ≠ (a.after.ledger.tenants 7).paidUntil := by
  have hraced : ((click exampleSetting).run (openClick exampleTenants [exampleOrder])
      (runPrepare 0 ++ callComplete 1 0 :: List.replicate 2 (.proc 1 (.next 1500 0)) ++
        callComplete 2 (-1) :: List.replicate 3 (.proc 2 (.next 1600 0)) ++ [.proc 1 (.next 1700 0)])).map
      (fun s => s.shared.answers.map fun a => (a.method, a.result.error, a.after.grants)) =
      some [(.complete, 0, []), (.complete, -9, []), (.prepare, 0, [])] := by
    decide +kernel
  have hrefused : ((click exampleSetting).run (openClick exampleTenants [exampleOrder])
      (runPrepare 0 ++ callComplete 1 0 :: List.replicate 3 (.proc 1 (.next 1500 0)) ++
        callComplete 2 (-1) :: List.replicate 3 (.proc 2 (.next 1600 0)))).map
      (fun s => s.shared.answers.map fun a => (a.method, a.seen.status, a.result.error,
        (verifiedAmount a.body a.seen).isOk && prepareIdMatches a.body a.seen,
        decide ((a.before.ledger.tenants 7).paidUntil ≠ (a.after.ledger.tenants 7).paidUntil))) =
      some [(.complete, .paid, -9, true, true), (.complete, .pending, 0, true, true),
        (.prepare, .pending, 0, false, false)] := by
    decide +kernel
  refine ⟨?_, ?_⟩
  · obtain ⟨s, hs, hanswers⟩ := Option.map_eq_some_iff.mp hraced
    refine ⟨s, Reaches.of_run (fun _ _ _ => trivial) hs, fun hall => ?_⟩
    obtain ⟨a, ha, hfacts⟩ := List.mem_map.mp (hanswers ▸ List.mem_cons_self :
      ((.complete, 0, []) : Method × Int × List Grant) ∈ _)
    simp only [Prod.mk.injEq] at hfacts
    obtain ⟨hmethod, herror, hgrants⟩ := hfacts
    obtain ⟨_, -, -, -, g, hg, -⟩ := hall.success a ha hmethod herror
    rw [hgrants] at hg
    exact List.not_mem_nil hg
  · obtain ⟨s, hs, hanswers⟩ := Option.map_eq_some_iff.mp hrefused
    obtain ⟨a, ha, hfacts⟩ := List.mem_map.mp (hanswers ▸ List.mem_cons_self :
      ((.complete, .paid, -9, true, true) :
        Method × PaymentStatus × Int × Bool × Bool) ∈ _)
    simp only [Prod.mk.injEq, Bool.and_eq_true, decide_eq_true_eq] at hfacts
    obtain ⟨hmethod, hstatus, herror, ⟨hamount, hquoted⟩, hne⟩ := hfacts
    have hverified : verifiedAmount a.body a.seen = .ok () := by
      cases hv : verifiedAmount a.body a.seen with
      | ok u => rfl
      | error e =>
          rw [hv] at hamount
          cases hamount
    refine ⟨s, Reaches.of_run (fun _ _ _ => trivial) hs, fun hall => ?_, a, ha, hstatus, hne⟩
    obtain ⟨hresult, -⟩ := hall.repeated a ha hmethod hverified hquoted hstatus
    rw [hresult] at herror
    exact absurd herror (by decide)

end ESignSoft.Billing.Click
