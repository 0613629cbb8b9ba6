import ESignSoft.Billing.PaymeAnswers

/-!
# Payme calls one after the other

In a sequence of whole calls every decision is made on the payment as it is stored (`serve_spec`), so
that what a call answers can be compared with what CheckTransaction answers right after it:

* PerformTransaction and CancelTransaction always agree with it, and so does every row of GetStatement;
* CreateTransaction does exactly where the order it is repeated on is still pending and the creation time
  it quotes is a whole number (`Plain`).

`sequence_consistent` puts these together, for any calls with any parameters, purchases and the other
provider's transactions between them.
-/

namespace ESignSoft.Billing.Payme

open ESignSoft.Lib.JsNumber ESignSoft.Lib.JsDate ESignSoft.Lib.Table ESignSoft.Lib.Interleaving

/-! ## A whole call -/

/-- One of the six methods, as `rpc` runs it. -/
def rpc (setting : Setting) (clock now : Int) (w : World) (method : Method) (params : PaymeParams) :
    World × Pc :=
  match parse setting method params with
  | .ok request => serve setting clock now w request
  | .error e => (w, .answered (.error e))

/-- What a call that has ended answered. -/
def Pc.result : Pc → Option Result
  | .answered (.ok result) => some result
  | _ => none

theorem Pc.eq_of_result {pc : Pc} {result : Result} (h : pc.result = some result) :
    pc = .answered (.ok result) := by
  cases pc with
  | answered answer =>
      cases answer with
      | ok r => rw [Option.some.inj h]
      | error e => cases h
  | _ => cases h

/-- What a whole call does: it refuses, reports, answers from the payment it names, or runs the one
transaction its decision on that payment asks for. -/
inductive Served (setting : Setting) (clock now : Int) (w : World) (request : Request) : World → Pc → Prop
  | refused (e : PaymeRpcError) : Served setting clock now w request w (.answered (.error e))
  | reported (start stop : ℚ) (start' stop' : Int) (hrequest : request = .statement start stop) :
      Served setting clock now w request
        (w.record request
          (.answered (.ok (.statement (paymeStatement setting start' stop' w.books.ledger)))))
        (.answered (.ok (.statement (paymeStatement setting start' stop' w.books.ledger))))
  | decided (r : Payment) (result : Result) (hr : r ∈ w.books.ledger.payments) (hprov : r.provider = .payme)
      (hnames : Names setting r request)
      (h : Decided r clock now request (.answered (.ok result))) :
      Served setting clock now w request (w.record request (.answered (.ok result)))
        (.answered (.ok result))
  | attached (c : CreateParams) (r : Payment) (createdAt : Int) (L : Ledger) (hrequest : request = .create c)
      (hr : r ∈ w.books.ledger.payments) (hprov : r.provider = .payme) (hnames : Names setting r request)
      (h : Decided r clock now request (.attaching c r)) (hdate : newDate c.time = some createdAt)
      (hL : (Event.attachProviderTxn r.id c.id createdAt).apply w.books.ledger = some L) :
      Served setting clock now w request
        ((w.bind c r createdAt L).record (.create c)
          (.answered (.ok (.created ⟨c.time, r.id, PaymeState.Created⟩))))
        (.answered (.ok (.created ⟨c.time, r.id, PaymeState.Created⟩)))
  | activated (txn : String) (r : Payment) (claimed : Bool) (books : Books) (hrequest : request = .perform txn)
      (hr : r ∈ w.books.ledger.payments) (hprov : r.provider = .payme) (hnames : Names setting r request)
      (h : Decided r clock now request (.activating txn r clock now))
      (hrun : w.books.run (.activate r.tenantId r.id now) = some (claimed, books)) :
      Served setting clock now w request
        (World.record { w with books } (.perform txn)
          (.answered (.ok (.performed ⟨r.id, now, PaymeState.Performed⟩))))
        (.answered (.ok (.performed ⟨r.id, now, PaymeState.Performed⟩)))
  | cancelled (c : CancelParams) (r : Payment) (state : Int) (reason : Option Int) (claimed : Bool)
      (books : Books) (hrequest : request = .cancel c) (hr : r ∈ w.books.ledger.payments)
      (hprov : r.provider = .payme) (hnames : Names setting r request)
      (h : Decided r clock now request (.cancelling c r state now))
      (hrun : w.books.run (.cancel r.tenantId r.id reason now) = some (claimed, books)) :
      Served setting clock now w request
        (World.record { w with books } (.cancel c) (.answered (.ok (.cancelled ⟨r.id, now, state⟩))))
        (.answered (.ok (.cancelled ⟨r.id, now, state⟩)))

/-- A step of a call that goes on. -/
theorem finish_succ {setting : Setting} {clock now : Int} {n : Nat} {w w' : World} {pc pc' : Pc}
    (h : act setting 0 (.next clock now) w pc = some (w', pc')) :
    finish setting clock now (n + 1) w pc = finish setting clock now n w' pc' := by
  simp [finish, h]

/-- The transaction a decision asks for. -/
private theorem serve_decided {setting : Setting} {clock now : Int} {w : World} {request : Request}
    {r : Payment} {pc : Pc} (hr : r ∈ w.books.ledger.payments) (hprov : r.provider = .payme)
    (hnames : Names setting r request) (h : Decided r clock now request pc) :
    Served setting clock now w request (finish setting clock now 1 (w.record request pc) pc).1
      (finish setting clock now 1 (w.record request pc) pc).2 := by
  have hcall := h
  cases h with
  | refused request e => exact Served.refused e
  | allowed | createdBefore | performedBefore | cancelledBefore | checked =>
      exact Served.decided r _ hr hprov hnames hcall
  | attach c q htxn hpending hamount htrunc hclock =>
      cases hdate : newDate c.time with
      | none =>
          have hact : act setting 0 (.next clock now) w (.attaching c r) =
              some (w, .answered (.error unexpected)) := by simp [act, hdate]
          rw [show w.record (.create c) (.attaching c r) = w from rfl, finish_succ hact]
          exact Served.refused _
      | some createdAt =>
          cases hL : (Event.attachProviderTxn r.id c.id createdAt).apply w.books.ledger with
          | none =>
              have hact : act setting 0 (.next clock now) w (.attaching c r) =
                  some (w, .answered (.error unexpected)) := by simp [act, hdate, hL]
              rw [show w.record (.create c) (.attaching c r) = w from rfl, finish_succ hact]
              exact Served.refused _
          | some L =>
              have hact : act setting 0 (.next clock now) w (.attaching c r) =
                  some ((w.bind c r createdAt L).record (.create c)
                    (.answered (.ok (.created ⟨c.time, r.id, PaymeState.Created⟩))),
                    .answered (.ok (.created ⟨c.time, r.id, PaymeState.Created⟩))) := by
                simp [act, hdate, hL]
              rw [show w.record (.create c) (.attaching c r) = w from rfl, finish_succ hact]
              exact Served.attached c r createdAt L rfl hr hprov hnames hcall hdate hL
  | activate txn hopen hclock =>
      cases hrun : w.books.run (.activate r.tenantId r.id now) with
      | none =>
          have hact : act setting 0 (.next clock now) w (.activating txn r clock now) =
              some (w, .answered (.error unexpected)) := by simp [act, hrun]
          rw [show w.record (.perform txn) (.activating txn r clock now) = w from rfl, finish_succ hact]
          exact Served.refused _
      | some result =>
          obtain ⟨claimed, books⟩ := result
          have hact : act setting 0 (.next clock now) w (.activating txn r clock now) =
              some (World.record { w with books } (.perform txn)
                (.answered (.ok (.performed ⟨r.id, now, PaymeState.Performed⟩))),
                .answered (.ok (.performed ⟨r.id, now, PaymeState.Performed⟩))) := by simp [act, hrun]
          rw [show w.record (.perform txn) (.activating txn r clock now) = w from rfl, finish_succ hact]
          exact Served.activated txn r claimed books rfl hr hprov hnames hcall hrun
  | cancel c hopen =>
      generalize hstate : (if r.status = .paid then PaymeState.CancelledAfterPerform
        else PaymeState.CancelledBeforePerform) = state at hcall ⊢
      rw [show w.record (.cancel c) (.cancelling c r state now) = w from rfl]
      cases hreason : cancelReason c.reason with
      | none =>
          have hact : act setting 0 (.next clock now) w (.cancelling c r state now) =
              some (w, .answered (.error unexpected)) := by simp [act, hreason]
          rw [finish_succ hact]
          exact Served.refused _
      | some reason =>
          cases hrun : w.books.run (.cancel r.tenantId r.id reason now) with
          | none =>
              have hact : act setting 0 (.next clock now) w (.cancelling c r state now) =
                  some (w, .answered (.error unexpected)) := by simp [act, hreason, hrun]
              rw [finish_succ hact]
              exact Served.refused _
          | some result =>
              obtain ⟨claimed, books⟩ := result
              have hact : act setting 0 (.next clock now) w (.cancelling c r state now) =
                  some (World.record { w with books } (.cancel c)
                    (.answered (.ok (.cancelled ⟨r.id, now, state⟩))),
                    .answered (.ok (.cancelled ⟨r.id, now, state⟩))) := by simp [act, hreason, hrun]
              rw [finish_succ hact]
              exact Served.cancelled c r state reason claimed books rfl hr hprov hnames hcall hrun

/-- **A whole call decides on the payment as it is stored.** -/
theorem serve_spec (setting : Setting) (clock now : Int) {w : World} (hw : Sound w.books)
    (request : Request) : Served setting clock now w request (serve setting clock now w request).1
      (serve setting clock now w request).2 := by
  have hresolve : act setting 0 (.next clock now) w (.resolving request) =
      some (w.record request (resolve setting w.books.ledger request),
        resolve setting w.books.ledger request) := rfl
  rw [serve, finish_succ hresolve]
  have hmoved := resolve_moved setting w request
  generalize hpc : resolve setting w.books.ledger request = pc at hmoved
  generalize hw' : w.record request pc = w' at hmoved
  cases hmoved with
  | ended _ _ hend =>
      rcases hend with rfl | ⟨e, rfl⟩
      · cases request with
        | statement start stop =>
            simp only [resolve] at hpc
            split at hpc <;> cases hpc
        | _ =>
            simp only [resolve] at hpc
            split at hpc <;> cases hpc
      · exact Served.refused e
  | started _ request' _ =>
      cases request with
      | statement start stop =>
          simp only [resolve] at hpc
          split at hpc <;> cases hpc
      | _ =>
          simp only [resolve] at hpc
          split at hpc <;> cases hpc
  | reported start stop start' stop' => exact Served.reported start stop start' stop' rfl
  | resolved request r hr hnames =>
      cases hfind : w.books.ledger.find r.tenantId r.id .payme with
      | none =>
          have hact : act setting 0 (.next clock now) w (.finding request r.tenantId r.id) =
              some (w, .answered (.error (notFound setting request))) := by
            simp [act, hfind, World.record]
          rw [finish_succ hact]
          exact Served.refused _
      | some payment =>
          obtain ⟨hmem, hid, -, hprov⟩ := find_eq_some hfind
          obtain rfl := eq_of_key_eq hw.ids hmem hr hid
          have hact : act setting 0 (.next clock now) w (.finding request payment.tenantId payment.id) =
              some (w.record request (decideOn request payment clock now),
                decideOn request payment clock now) := by
            simp [act, hfind]
          rw [finish_succ hact]
          exact serve_decided hr hprov hnames (decideOn_spec request payment clock now)

/-! ## A sequence of calls is a run -/

theorem finish_reaches (setting : Setting) (clock now : Int) (n : Nat) (w : World) (procs : Nat → Pc) :
    Reaches (payme setting) (fun _ _ => True) ⟨w, procs⟩
      ⟨(finish setting clock now n w (procs 0)).1,
        Function.update procs 0 (finish setting clock now n w (procs 0)).2⟩ := by
  induction n generalizing w procs with
  | zero => simpa [finish] using Reaches.refl (P := payme setting) ⟨w, procs⟩
  | succ n ih =>
      cases hact : act setting 0 (.next clock now) w (procs 0) with
      | none => simpa [finish, hact] using Reaches.refl (P := payme setting) ⟨w, procs⟩
      | some next =>
          obtain ⟨w', pc'⟩ := next
          have hmove : Moves (payme setting) (fun _ _ => True) ⟨w, procs⟩
              ⟨w', Function.update procs 0 pc'⟩ :=
            ⟨.proc 0 (.next clock now), trivial, by simp [Program.step, payme, hact]⟩
          have hrest := ih w' (Function.update procs 0 pc')
          rw [Function.update_self, Function.update_idem] at hrest
          rw [finish_succ hact]
          exact Relation.ReflTransGen.head hmove hrest

/-- Whole calls one after the other, each answered call meeting `ok` in the world it is made in;
purchases and the other provider's transactions happen in between. -/
inductive Sequence (setting : Setting) (ok : World → Request → Prop) (w₀ : World) : World → Prop
  | start : Sequence setting ok w₀ w₀
  | call {w : World} (method : Method) (params : PaymeParams) (clock now : Int)
      (h : Sequence setting ok w₀ w)
      (hok : ∀ request result, parse setting method params = .ok request →
        (serve setting clock now w request).2 = .answered (.ok result) → ok w request) :
      Sequence setting ok w₀ (rpc setting clock now w method params).1
  | outside {w w' : World} (o : Outside) (h : Sequence setting ok w₀ w) (ho : env o w = some w') :
      Sequence setting ok w₀ w'

/-- No call is under way. -/
def Quiet : Pc → Prop
  | .idle => True
  | .answered _ => True
  | _ => False

theorem Served.books_step {setting : Setting} {clock now : Int} {w w' : World} {request : Request}
    {pc : Pc} (hw : Sound w.books) (h : Served setting clock now w request w' pc) :
    Books.Step w.books w'.books := by
  cases h with
  | refused => exact Books.Step.stay _
  | reported | decided =>
      rw [record_books]
      exact Books.Step.stay _
  | attached c r createdAt L hrequest hr hprov hnames hdecided hdate hL =>
      rw [record_books]
      exact Books.Step.event _ _ L hL
  | activated txn r claimed books hrequest hr hprov hnames hdecided hrun =>
      rw [record_books]
      exact (Books.run_spec hw.ids hrun).step
  | cancelled c r state reason claimed books hrequest hr hprov hnames hdecided hrun =>
      rw [record_books]
      exact (Books.run_spec hw.ids hrun).step

theorem Served.quiet {setting : Setting} {clock now : Int} {w w' : World} {request : Request} {pc : Pc}
    (h : Served setting clock now w request w' pc) : Quiet pc := by
  cases h <;> trivial

/-- **A sequence of whole calls is one of the interleavings.** -/
theorem Sequence.reaches {setting : Setting} {ok : World → Request → Prop} {tenants : Nat → Tenant}
    {payments : List Payment} {w : World} (h₀ : Fresh payments)
    (h : Sequence setting ok (openPayme tenants payments).shared w) :
    ∃ procs, Reaches (payme setting) (fun _ _ => True) (openPayme tenants payments) ⟨w, procs⟩ ∧
      Quiet (procs 0) := by
  induction h with
  | start => exact ⟨_, Reaches.refl _, trivial⟩
  | outside o _ ho ih =>
      obtain ⟨procs, hreaches, hrest⟩ := ih
      exact ⟨procs, Relation.ReflTransGen.tail hreaches ⟨.env o, trivial, by simp [Program.step, payme, ho]⟩,
        hrest⟩
  | @call w method params clock now _ _ ih =>
      obtain ⟨procs, hreaches, hrest⟩ := ih
      have hsound := (holds_of_reaches h₀ hreaches).shared.sound
      have hcall : ∀ pc, act setting 0 (.call method params) w (procs 0) = some (w, pc) →
          Reaches (payme setting) (fun _ _ => True) (openPayme tenants payments)
            ⟨w, Function.update procs 0 pc⟩ := fun pc hact =>
        Relation.ReflTransGen.tail hreaches
          ⟨.proc 0 (.call method params), trivial, by simp [Program.step, payme, hact]⟩
      cases hparse : parse setting method params with
      | error e =>
          refine ⟨Function.update procs 0 (.answered (.error e)), ?_, ?_⟩
          · rw [show (rpc setting clock now w method params).1 = w by simp [rpc, hparse]]
            refine hcall _ ?_
            cases hpc : procs 0 with
            | idle | answered => simp [act, hparse]
            | _ =>
                rw [hpc] at hrest
                exact hrest.elim
          · simp [Quiet]
      | ok request =>
          have hstart := hcall (.resolving request) (by
            cases hpc : procs 0 with
            | idle | answered => simp [act, hparse]
            | _ =>
                rw [hpc] at hrest
                exact hrest.elim)
          have hserve := finish_reaches setting clock now 3 w (Function.update procs 0 (.resolving request))
          rw [Function.update_self, Function.update_idem] at hserve
          refine ⟨Function.update procs 0 (serve setting clock now w request).2, ?_, ?_⟩
          · rw [show rpc setting clock now w method params = serve setting clock now w request by
              simp [rpc, hparse]]
            exact hstart.trans hserve
          · rw [Function.update_self]
            exact (serve_spec setting clock now hsound request).quiet

theorem Sequence.invariant {setting : Setting} {ok : World → Request → Prop} {tenants : Nat → Tenant}
    {payments : List Payment} {w : World} (h₀ : Fresh payments)
    (h : Sequence setting ok (openPayme tenants payments).shared w) : Invariant setting w := by
  obtain ⟨procs, hreaches, -⟩ := h.reaches h₀
  exact (holds_of_reaches h₀ hreaches).shared

/-! ## What the answers of a call come from -/

/-- The payment that carries a transaction. -/
structure Carrier (L : Ledger) (txn : String) (payment : Payment) : Prop where
  mem : payment ∈ L.payments
  provider : payment.provider = .payme
  bound : payment.providerTxnId = some txn

theorem Carrier.unique {b : Books} (hb : Sound b) {txn : String} {payment q : Payment}
    (h : Carrier b.ledger txn payment) (hq : Carrier b.ledger txn q) : payment = q := by
  have hid : payment.id = q.id := hb.txns payment h.mem q hq.mem (h.provider.trans hq.provider.symm)
    (by rw [h.bound]; exact Option.some_ne_none _) (h.bound.trans hq.bound.symm)
  exact eq_of_key_eq hb.ids h.mem hq.mem hid

/-- A CreateTransaction whose answer is the one CheckTransaction gives: the order is pending, and the
creation time, where it is to be stored, is a whole number. -/
def Plain (setting : Setting) (w : World) : Request → Prop
  | .create c => ∀ r ∈ w.books.ledger.payments, setting.paymentId c.order = some r.id →
      r.status = .pending ∧ (r.providerTxnId = none → ∃ n : ℤ, c.time = n)
  | _ => True

/-- A date that was made of a number is that number exactly if it is whole. -/
theorem newDate_eq_iff {q : ℚ} {t : Int} (h : newDate q = some t) : (t : ℚ) = q ↔ ∃ n : ℤ, q = n := by
  constructor
  · intro ht
    exact ⟨t, ht.symm⟩
  · rintro ⟨n, rfl⟩
    have hclip : timeClip n = some t := by simpa [newDate] using h
    obtain ⟨-, rfl⟩ : _ ∧ n = t := by simpa [timeClip] using hclip
    rfl

/-- A successful CreateTransaction: the order carries its transaction, created at the time answered and
still pending exactly where the call is plain. -/
theorem Served.created {setting : Setting} {clock now : Int} {w w' : World} {c : CreateParams}
    {result : Result} (hw : Invariant setting w)
    (h : Served setting clock now w (.create c) w' (.answered (.ok result))) :
    ∃ r, result = .created r ∧ r.state = PaymeState.Created ∧ ∃ payment createdAt,
      Carrier w'.books.ledger c.id payment ∧ payment.id = r.transaction ∧
      payment.providerCreatedAt = some createdAt ∧
      (((createdAt : ℚ) = r.create_time ∧ payment.status = .pending) ↔ Plain setting w (.create c)) := by
  have hplain : ∀ r ∈ w.books.ledger.payments, setting.paymentId c.order = some r.id →
      (Plain setting w (.create c) ↔
        r.status = .pending ∧ (r.providerTxnId = none → ∃ n : ℤ, c.time = n)) := by
    intro r hr hnames
    constructor
    · intro h
      exact h r hr hnames
    · intro h q hq hqnames
      obtain rfl := eq_of_key_eq hw.sound.ids hq hr (Option.some.inj (hqnames.symm.trans hnames))
      exact h
  cases h with
  | reported start stop start' stop' hrequest => cases hrequest
  | activated txn r claimed books hrequest => cases hrequest
  | cancelled c' r state reason claimed books hrequest => cases hrequest
  | decided r _ hr hprov hnames hdecided =>
      cases hdecided with
      | createdBefore _ createdAt htxn hcreated hclock =>
          refine ⟨_, rfl, rfl, r, createdAt, ⟨by rw [record_books]; exact hr, hprov, htxn⟩, rfl, hcreated, ?_⟩
          rw [hplain r hr hnames]
          simp [htxn]
  | attached c' r createdAt L hrequest hr hprov hnames hdecided hdate hL =>
      obtain rfl := Request.create.inj hrequest
      cases hdecided with
      | attach _ q htxn hpending hamount htrunc hclock =>
          have hunbound : r.providerTxnId = none := by
            cases hbound : r.providerTxnId with
            | none => rfl
            | some txn =>
                -- An accepted transaction is not the empty string.
                obtain ⟨b, hb, -, hbtxn, -⟩ := hw.bound r hr hprov txn hbound
                have hne := (hw.accepted b hb).id
                rw [hbtxn] at hne
                rw [hbound] at htxn
                exact absurd htxn hne
          refine ⟨_, rfl, rfl, { r with providerTxnId := some c.id, providerCreatedAt := some createdAt },
            createdAt, ⟨?_, hprov, rfl⟩, rfl, rfl, ?_⟩
          · rw [record_books]
            exact (mem_attachProviderTxn hL).mpr (Or.inl ⟨r, hr, rfl, rfl⟩)
          · rw [hplain r hr hnames]
            simp [hunbound, hpending, newDate_eq_iff hdate]

/-- A successful PerformTransaction: the payment is paid, at the time answered. -/
theorem Served.performed {setting : Setting} {clock now : Int} {w w' : World} {txn : String}
    {result : Result} (hw : Invariant setting w)
    (h : Served setting clock now w (.perform txn) w' (.answered (.ok result))) :
    ∃ r, result = .performed r ∧ r.state = PaymeState.Performed ∧ ∃ payment,
      Carrier w'.books.ledger txn payment ∧ payment.id = r.transaction ∧ payment.status = .paid ∧
      payment.paidAt = some r.perform_time := by
  cases h with
  | reported start stop start' stop' hrequest => cases hrequest
  | attached c r createdAt L hrequest => cases hrequest
  | cancelled c r state reason claimed books hrequest => cases hrequest
  | decided r _ hr hprov hnames hdecided =>
      cases hdecided with
      | performedBefore _ paidAt hpaid hpaidAt =>
          exact ⟨_, rfl, rfl, r, ⟨by rw [record_books]; exact hr, hprov, hnames.2⟩, rfl, hpaid, hpaidAt⟩
  | activated txn' r claimed books hrequest hr hprov hnames hdecided hrun =>
      obtain rfl := Request.perform.inj hrequest
      cases hdecided with
      | activate _ hopen hclock =>
          have hpending : r.status = .pending := by
            rcases hopen with hpending | ⟨hpaid, hnone⟩
            · exact hpending
            · exact absurd hnone ((hw.sound.stamps r hr).paid hpaid).1
          obtain ⟨r', hr', hid', hpaidAt, hstatus, hprov', htxn'⟩ :=
            (Books.run_spec hw.sound.ids hrun).activate_row hw.sound hr rfl rfl
          rw [if_pos hpending] at hpaidAt hstatus
          refine ⟨_, rfl, rfl, r', ⟨?_, hprov'.trans hprov, htxn'.trans hnames.2⟩, hid', hstatus, hpaidAt⟩
          rw [record_books]
          exact hr'

/-- A successful CancelTransaction: the payment is cancelled, at the time and to the state answered. -/
theorem Served.cancelled_row {setting : Setting} {clock now : Int} {w w' : World} {c : CancelParams}
    {result : Result} (hw : Invariant setting w)
    (h : Served setting clock now w (.cancel c) w' (.answered (.ok result))) :
    ∃ r, result = .cancelled r ∧ ∃ payment,
      Carrier w'.books.ledger c.id payment ∧ payment.id = r.transaction ∧ payment.status = .cancelled ∧
      payment.cancelledAt = some r.cancel_time ∧ cancelledState payment = r.state := by
  cases h with
  | reported start stop start' stop' hrequest => cases hrequest
  | attached c' r createdAt L hrequest => cases hrequest
  | activated txn r claimed books hrequest => cases hrequest
  | decided r _ hr hprov hnames hdecided =>
      cases hdecided with
      | cancelledBefore _ cancelledAt hstatus hcancelledAt =>
          exact ⟨_, rfl, r, ⟨by rw [record_books]; exact hr, hprov, hnames.2⟩, rfl, hstatus, hcancelledAt,
            rfl⟩
  | cancelled c' r state reason claimed books hrequest hr hprov hnames hdecided hrun =>
      obtain rfl := Request.cancel.inj hrequest
      cases hdecided with
      | cancel _ hopen =>
          have hstamps := hw.sound.stamps r hr
          have hcancelled : r.status ≠ .cancelled := fun h => hstamps.cancelled h (hopen h)
          obtain ⟨r', hr', hid', hstatus', hpaidAt', hcancelledAt', hprov', htxn'⟩ :=
            (Books.run_spec hw.sound.ids hrun).cancel_row hw.sound hr rfl rfl
          rw [if_neg hcancelled] at hcancelledAt'
          refine ⟨_, rfl, r', ⟨?_, hprov'.trans hprov, htxn'.trans hnames.2⟩, hid', hstatus', hcancelledAt',
            ?_⟩
          · rw [record_books]
            exact hr'
          · -- A payment that is not cancelled is stamped paid exactly if it is paid.
            simp only [cancelledState, hpaidAt']
            cases hstatus : r.status with
            | cancelled => exact absurd hstatus hcancelled
            | paid => simp [Option.isSome_iff_ne_none.mpr (hstamps.paid hstatus).1]
            | pending => simp [(hstamps.pending hstatus).1]

/-! ## What stays said -/

/-- A whole call, or what happens between two, keeps what is noted on a payment that carries a
transaction. -/
def Stays (w w' : World) : Prop :=
  ∀ r ∈ w.books.ledger.payments, r.provider = .payme → ∃ r' ∈ w'.books.ledger.payments, Later r r' ∧
    ∀ txn, r.providerTxnId = some txn →
      r'.providerTxnId = some txn ∧ r'.providerCreatedAt = r.providerCreatedAt

theorem Stays.of_books_eq {w w' : World} (h : w'.books = w.books) : Stays w w' := by
  intro r hr _
  rw [h]
  exact ⟨r, hr, Later.refl r, fun _ htxn => ⟨htxn, rfl⟩⟩

theorem Served.stays {setting : Setting} {clock now : Int} {w w' : World} {request : Request} {pc : Pc}
    (hw : Invariant setting w) (h : Served setting clock now w request w' pc) : Stays w w' := by
  have hrun : ∀ c claimed books, w.books.run c = some (claimed, books) → w'.books = books →
      Stays w w' := by
    intro c claimed books hrun hbooks r hr _
    obtain ⟨r', hr', hlater, hnotes⟩ := (Books.run_spec hw.sound.ids hrun).later hw.sound r hr
    exact ⟨r', hbooks ▸ hr', hlater, fun txn htxn => ⟨hnotes.1.trans htxn, hnotes.2.1⟩⟩
  cases h with
  | refused => exact Stays.of_books_eq rfl
  | reported | decided => exact Stays.of_books_eq (record_books _ _ _)
  | activated txn r claimed books hrequest hr hprov hnames hdecided hbooks =>
      exact hrun _ _ _ hbooks (record_books _ _ _)
  | cancelled c r state reason claimed books hrequest hr hprov hnames hdecided hbooks =>
      exact hrun _ _ _ hbooks (record_books _ _ _)
  | attached c q createdAt L hrequest hq hprov hnames hdecided hdate hL =>
      intro r hr _
      rw [record_books]
      by_cases hid : r.id = q.id
      · obtain rfl := eq_of_key_eq hw.sound.ids hr hq hid
        refine ⟨_, (mem_attachProviderTxn hL).mpr (Or.inl ⟨r, hr, rfl, rfl⟩), ?_, fun txn htxn => ?_⟩
        · exact ⟨rfl, rfl, rfl, rfl, fun _ h => h, fun _ h => (by cases h), fun h => h,
            fun h => ⟨h, rfl, rfl, rfl⟩⟩
        · -- The order that is written carried no transaction.
          cases hdecided with
          | attach _ _ hnone _ _ _ _ =>
              obtain ⟨b, hb, -, hbtxn, -⟩ := hw.bound r hr hprov txn htxn
              have hne := (hw.accepted b hb).id
              rw [hbtxn] at hne
              rw [htxn] at hnone
              exact absurd hnone hne
      · exact ⟨r, (mem_attachProviderTxn hL).mpr (Or.inr ⟨hr, hid⟩), Later.refl r,
          fun _ htxn => ⟨htxn, rfl⟩⟩

theorem env_stays {o : Outside} {w w' : World} (hw : Sound w.books) (h : env o w = some w') :
    Stays w w' := by
  obtain ⟨books, hbooks, rfl⟩ := Option.map_eq_some_iff.mp h
  intro r hr hprov
  exact ⟨r, (mem_outside hw hbooks hprov).1 hr, Later.refl r, fun _ htxn => ⟨htxn, rfl⟩⟩

/-- An answer on record is what is stored: the answer of a plain CreateTransaction, of a
PerformTransaction or of a CancelTransaction. -/
def Stored (L : Ledger) (a : Answer) : Prop :=
  match a.request with
  | .create c => ∃ r, a.result = .created r ∧ r.state = PaymeState.Created ∧ ∃ payment createdAt,
      Carrier L c.id payment ∧ payment.id = r.transaction ∧
      payment.providerCreatedAt = some createdAt ∧ (createdAt : ℚ) = r.create_time
  | .perform txn => ∃ r, a.result = .performed r ∧ r.state = PaymeState.Performed ∧ ∃ payment,
      Carrier L txn payment ∧ payment.id = r.transaction ∧ payment.paidAt = some r.perform_time
  | .cancel c => ∃ r, a.result = .cancelled r ∧ ∃ payment, Carrier L c.id payment ∧
      payment.id = r.transaction ∧ payment.status = .cancelled ∧
      payment.cancelledAt = some r.cancel_time ∧ cancelledState payment = r.state
  | _ => True

theorem Stored.stays {w w' : World} (hw : Stays w w') {a : Answer} (h : Stored w.books.ledger a) :
    Stored w'.books.ledger a := by
  have hcarrier : ∀ txn payment, Carrier w.books.ledger txn payment → ∃ payment',
      Carrier w'.books.ledger txn payment' ∧ Later payment payment' ∧
        payment'.providerCreatedAt = payment.providerCreatedAt := by
    intro txn payment hp
    obtain ⟨r', hr', hlater, hnotes⟩ := hw payment hp.mem hp.provider
    obtain ⟨htxn, hcreated⟩ := hnotes txn hp.bound
    exact ⟨r', ⟨hr', hlater.provider.trans hp.provider, htxn⟩, hlater, hcreated⟩
  unfold Stored at h ⊢
  cases hrequest : a.request with
  | create c =>
      simp only [hrequest] at h
      obtain ⟨r, hr, hstate, payment, createdAt, hp, hid, hcreated, htime⟩ := h
      obtain ⟨q, hq, hlater, hcreated'⟩ := hcarrier _ _ hp
      exact ⟨r, hr, hstate, q, createdAt, hq, hlater.id.trans hid, hcreated'.trans hcreated, htime⟩
  | perform txn =>
      simp only [hrequest] at h
      obtain ⟨r, hr, hstate, payment, hp, hid, hpaidAt⟩ := h
      obtain ⟨q, hq, hlater, -⟩ := hcarrier _ _ hp
      exact ⟨r, hr, hstate, q, hq, hlater.id.trans hid, hlater.paidAt _ hpaidAt⟩
  | cancel c =>
      simp only [hrequest] at h
      obtain ⟨r, hr, payment, hp, hid, hstatus, hcancelledAt, hstate⟩ := h
      obtain ⟨q, hq, hlater, -⟩ := hcarrier _ _ hp
      obtain ⟨hstatus', hpaidAt', hcancelledAt', -⟩ := hlater.cancelled hstatus
      refine ⟨r, hr, q, hq, hlater.id.trans hid, hstatus', hcancelledAt'.trans hcancelledAt, ?_⟩
      simpa only [cancelledState, hpaidAt'] using hstate
  | _ => trivial

/-- The answer a plain call adds is what is stored. -/
theorem Served.stored {setting : Setting} {clock now : Int} {w w' : World} {request : Request}
    {result : Result} (hw : Invariant setting w) (hplain : Plain setting w request)
    (h : Served setting clock now w request w' (.answered (.ok result))) :
    Stored w'.books.ledger ⟨request, result⟩ := by
  cases request with
  | create c =>
      obtain ⟨r, rfl, hstate, payment, createdAt, hp, hid, hcreated, hiff⟩ := h.created hw
      exact ⟨r, rfl, hstate, payment, createdAt, hp, hid, hcreated, (hiff.mpr hplain).1⟩
  | perform txn =>
      obtain ⟨r, rfl, hstate, payment, hp, hid, -, hpaidAt⟩ := h.performed hw
      exact ⟨r, rfl, hstate, payment, hp, hid, hpaidAt⟩
  | cancel c => exact h.cancelled_row hw
  | _ => trivial

/-- The answers a whole call adds. -/
theorem Served.answers {setting : Setting} {clock now : Int} {w w' : World} {request : Request} {pc : Pc}
    (h : Served setting clock now w request w' pc) {a : Answer} (ha : a ∈ w'.answers) :
    a ∈ w.answers ∨ ∃ result, pc = .answered (.ok result) ∧ a = ⟨request, result⟩ := by
  cases h with
  | refused => exact Or.inl ha
  | reported | decided => exact mem_record ha
  | attached c r createdAt L hrequest =>
      subst hrequest
      exact mem_record ha
  | activated txn r claimed books hrequest =>
      subst hrequest
      exact mem_record ha
  | cancelled c r state reason claimed books hrequest =>
      subst hrequest
      exact mem_record ha

theorem Sequence.stored {setting : Setting} {tenants : Nat → Tenant} {payments : List Payment} {w : World}
    (h₀ : Fresh payments)
    (h : Sequence setting (Plain setting) (openPayme tenants payments).shared w) :
    ∀ a ∈ w.answers, Stored w.books.ledger a := by
  induction h with
  | start =>
      intro a ha
      exact (List.not_mem_nil ha).elim
  | outside o hw ho ih =>
      intro a ha
      have hstays := env_stays (hw.invariant h₀).sound ho
      obtain ⟨books, -, rfl⟩ := Option.map_eq_some_iff.mp ho
      exact (ih a ha).stays hstays
  | @call w method params clock now hw hok ih =>
      intro a ha
      cases hparse : parse setting method params with
      | error e =>
          rw [show (rpc setting clock now w method params).1 = w by simp [rpc, hparse]] at ha ⊢
          exact ih a ha
      | ok request =>
          rw [show rpc setting clock now w method params = serve setting clock now w request by
            simp [rpc, hparse]] at ha ⊢
          have hinv := hw.invariant h₀
          have hserved := serve_spec setting clock now hinv.sound request
          rcases hserved.answers ha with hold | ⟨result, hresult, rfl⟩
          · exact (ih a hold).stays (hserved.stays hinv)
          · rw [hresult] at hserved
            exact hserved.stored hinv (hok request result hparse hresult)

/-! ## The answers of a sequence -/

/-- CheckTransaction for the transaction answers this. -/
def Reports (setting : Setting) (w : World) (txn : String) (check : CheckResult) : Prop :=
  ∀ clock now, (serve setting clock now w (.check txn)).2 = .answered (.ok (.checked check))

theorem Carrier.reports {setting : Setting} {w : World} (hw : Sound w.books) {txn : String}
    {payment : Payment} (h : Carrier w.books.ledger txn payment) :
    Reports setting w txn (checkOn payment) :=
  serve_check hw h.mem h.provider h.bound

/-- The transaction that a CreateTransaction, PerformTransaction or CancelTransaction is about. -/
def Request.txn : Request → Option String
  | .create c => some c.id
  | .perform txn => some txn
  | .cancel c => some c.id
  | _ => none

/-- The state and the time that were answered are the ones CheckTransaction gives. -/
def Agrees (check : CheckResult) : Result → Prop
  | .created r => check.transaction = r.transaction ∧ check.state = r.state ∧
      (check.create_time : ℚ) = r.create_time
  | .performed r => check.transaction = r.transaction ∧ check.state = r.state ∧
      check.perform_time = r.perform_time
  | .cancelled r => check.transaction = r.transaction ∧ check.state = r.state ∧
      check.cancel_time = r.cancel_time
  | _ => True

/-- The same call again: the same method for the same transaction. -/
def Repeats : Request → Request → Prop
  | .create c, .create c' => c.id = c'.id
  | .perform txn, .perform txn' => txn = txn'
  | .cancel c, .cancel c' => c.id = c'.id
  | _, _ => False

/-- The answers of a sequence of calls are consistent with CheckTransaction and with each other. -/
structure Consistent (setting : Setting) (w : World) : Prop where
  /-- A successful call agrees with the CheckTransaction that follows it, if it is plain and only then. -/
  check : ∀ clock now request result txn, request.txn = some txn →
    (serve setting clock now w request).2 = .answered (.ok result) →
    ∃ check, Reports setting (serve setting clock now w request).1 txn check ∧
      (Agrees check result ↔ Plain setting w request)
  repeated : ∀ a ∈ w.answers, ∀ a' ∈ w.answers, Repeats a.request a'.request → a.result = a'.result
  statement : ∀ clock now start stop entries,
    (serve setting clock now w (.statement start stop)).2 = .answered (.ok (.statement entries)) →
    ∀ e ∈ entries, ∃ check, Reports setting w e.id check ∧ check.transaction = e.transaction ∧
      check.state = e.state ∧ check.create_time = e.create_time ∧
      check.perform_time = e.perform_time ∧ check.cancel_time = e.cancel_time

theorem check_agrees {setting : Setting} {w : World} (hw : Invariant setting w) (clock now : Int)
    (request : Request) (result : Result) {txn : String} (htxn : request.txn = some txn)
    (hsound' : Sound (serve setting clock now w request).1.books)
    (hresult : (serve setting clock now w request).2 = .answered (.ok result)) :
    ∃ check, Reports setting (serve setting clock now w request).1 txn check ∧
      (Agrees check result ↔ Plain setting w request) := by
  have hserved := serve_spec setting clock now hw.sound request
  rw [hresult] at hserved
  cases request with
  | create c =>
      obtain rfl := Option.some.inj htxn
      obtain ⟨r, rfl, hstate, payment, createdAt, hp, hid, hcreated, hiff⟩ := hserved.created hw
      refine ⟨checkOn payment, hp.reports hsound', Iff.trans ?_ hiff⟩
      have hpending : stateOf payment = PaymeState.Created ↔ payment.status = .pending := by
        cases hstatus : payment.status with
        | pending => simp [stateOf, hstatus]
        | paid => simp [stateOf, hstatus, PaymeState.Performed, PaymeState.Created]
        | cancelled =>
            have hneg : cancelledState payment ≠ PaymeState.Created := by
              unfold cancelledState
              split <;> decide
            simp [stateOf, hstatus, hneg]
      simp only [Agrees, checkOn, hcreated, Option.getD_some, hid, true_and, hstate, hpending]
      exact And.comm
  | perform txn' =>
      obtain rfl := Option.some.inj htxn
      obtain ⟨r, rfl, hstate, payment, hp, hid, hstatus, hpaidAt⟩ := hserved.performed hw
      exact ⟨checkOn payment, hp.reports hsound', fun _ => trivial,
        fun _ => ⟨hid, by simp [checkOn, stateOf, hstatus, hstate], by simp [checkOn, hpaidAt]⟩⟩
  | cancel c =>
      obtain rfl := Option.some.inj htxn
      obtain ⟨r, rfl, payment, hp, hid, hstatus, hcancelledAt, hstate⟩ := hserved.cancelled_row hw
      exact ⟨checkOn payment, hp.reports hsound', fun _ => trivial,
        fun _ => ⟨hid, by simp [checkOn, stateOf, hstatus, hstate], by simp [checkOn, hcancelledAt]⟩⟩
  | _ => cases htxn

/-- Two answers that are stored answer the same call alike. -/
theorem Stored.eq_of_repeats {b : Books} (hb : Sound b) {a a' : Answer} (h : Stored b.ledger a)
    (h' : Stored b.ledger a') (hrepeats : Repeats a.request a'.request) : a.result = a'.result := by
  unfold Stored at h h'
  cases hrequest : a.request with
  | create c =>
      cases hrequest' : a'.request with
      | create c' =>
          simp only [hrequest, hrequest', Repeats] at h h' hrepeats
          obtain ⟨⟨time, transaction, state⟩, hr, rfl, payment, createdAt, hp, rfl, hcreated, rfl⟩ := h
          obtain ⟨⟨time', transaction', state'⟩, hr', rfl, payment', createdAt', hp', rfl, hcreated', rfl⟩ := h'
          obtain rfl := hp.unique hb (hrepeats ▸ hp')
          rw [hr, hr', Option.some.inj (hcreated.symm.trans hcreated')]
      | _ => simp [hrequest, hrequest', Repeats] at hrepeats
  | perform txn =>
      cases hrequest' : a'.request with
      | perform txn' =>
          simp only [hrequest, hrequest', Repeats] at h h' hrepeats
          obtain ⟨⟨transaction, time, state⟩, hr, rfl, payment, hp, rfl, hpaidAt⟩ := h
          obtain ⟨⟨transaction', time', state'⟩, hr', rfl, payment', hp', rfl, hpaidAt'⟩ := h'
          obtain rfl := hp.unique hb (hrepeats ▸ hp')
          obtain rfl : time = time' := Option.some.inj (hpaidAt.symm.trans hpaidAt')
          rw [hr, hr']
      | _ => simp [hrequest, hrequest', Repeats] at hrepeats
  | cancel c =>
      cases hrequest' : a'.request with
      | cancel c' =>
          simp only [hrequest, hrequest', Repeats] at h h' hrepeats
          obtain ⟨⟨transaction, time, state⟩, hr, payment, hp, rfl, -, hcancelledAt, rfl⟩ := h
          obtain ⟨⟨transaction', time', state'⟩, hr', payment', hp', rfl, -, hcancelledAt', rfl⟩ := h'
          obtain rfl := hp.unique hb (hrepeats ▸ hp')
          obtain rfl : time = time' := Option.some.inj (hcancelledAt.symm.trans hcancelledAt')
          rw [hr, hr']
      | _ => simp [hrequest, hrequest', Repeats] at hrepeats
  | checkPerform | check | statement => simp [hrequest, Repeats] at hrepeats

/-- A row of the statement is a payment of Payme's that carries a transaction. -/
theorem mem_paymeStatement {setting : Setting} {start stop : Int} {L : Ledger} {e : StatementEntry}
    (h : e ∈ paymeStatement setting start stop L) : ∃ payment txn createdAt, Carrier L txn payment ∧
      payment.providerCreatedAt = some createdAt ∧ e = statementRow setting txn createdAt payment := by
  obtain ⟨payment, hmem, hrow⟩ := List.mem_filterMap.mp (List.mem_mergeSort.mp h)
  split at hrow
  · rename_i txn createdAt hprov htxn hcreated
    split at hrow
    · exact ⟨payment, txn, createdAt, ⟨hmem, hprov, htxn⟩, hcreated, (Option.some.inj hrow).symm⟩
    · cases hrow
  · cases hrow

theorem statement_agrees {setting : Setting} {w : World} (hw : Sound w.books) {start stop : Int}
    {e : StatementEntry} (he : e ∈ paymeStatement setting start stop w.books.ledger) :
    ∃ check, Reports setting w e.id check ∧ check.transaction = e.transaction ∧
      check.state = e.state ∧ check.create_time = e.create_time ∧
      check.perform_time = e.perform_time ∧ check.cancel_time = e.cancel_time := by
  obtain ⟨payment, txn, createdAt, hp, hcreated, rfl⟩ := mem_paymeStatement he
  refine ⟨checkOn payment, hp.reports hw, rfl, ?_, by simp [checkOn, statementRow, hcreated], rfl, rfl⟩
  -- The statement spells out the state CheckTransaction takes from `stateOf`.
  cases hstatus : payment.status <;> simp [checkOn, statementRow, stateOf, cancelledState, hstatus]

/-- **The answers of a sequence of calls are consistent**, as long as every CreateTransaction that is
answered finds its order pending and quotes a whole number for a creation time that is to be stored. -/
theorem sequence_consistent {setting : Setting} {tenants : Nat → Tenant} {payments : List Payment}
    {w : World} (h₀ : Fresh payments)
    (h : Sequence setting (Plain setting) (openPayme tenants payments).shared w) :
    Consistent setting w := by
  have hinv := h.invariant h₀
  have hstored := h.stored h₀
  refine ⟨fun clock now request result txn htxn hresult => ?_, fun a ha a' ha' hrepeats => ?_,
    fun clock now start stop entries hentries e he => ?_⟩
  · have hstep := (serve_spec setting clock now hinv.sound request).books_step
      hinv.sound
    exact check_agrees hinv clock now request result htxn (sound_step hinv.sound hstep) hresult
  · exact (hstored a ha).eq_of_repeats hinv.sound (hstored a' ha') hrepeats
  · have hserved := serve_spec setting clock now hinv.sound
      (.statement start stop)
    rw [hentries] at hserved
    generalize hw' : (serve setting clock now w (.statement start stop)).1 = w' at hserved
    generalize hpc : Pc.answered (.ok (.statement entries)) = pc at hserved
    cases hserved with
    | refused e => cases hpc
    | decided r result hr hprov hnames => exact hnames.elim
    | attached c r createdAt L hrequest => cases hrequest
    | activated txn r claimed books hrequest => cases hrequest
    | cancelled c r state reason claimed books hrequest => cases hrequest
    | reported start stop start' stop' =>
        obtain rfl := Result.statement.inj (Except.ok.inj (Pc.answered.inj hpc))
        exact statement_agrees hinv.sound he

/-- The one order is created. -/
def answeredCreate (clock : Int) (w : World) : World :=
  (rpc exampleSetting clock clock w .createTransaction (exampleParams "t1" 1000)).1

/-- It is created, created again and performed. -/
def createdAndPerformed : World :=
  (rpc exampleSetting 1500 1500 (answeredCreate 1200 (answeredCreate 1000
    (openPayme exampleTenants [exampleOrder]).shared)) .performTransaction (exampleTxn "t1")).1

/-- The statement then has its one row. -/
theorem sequence_consistent_created :
    createdAndPerformed.answers.map Answer.result =
        [.performed ⟨1, 1500, PaymeState.Performed⟩, .created ⟨1000, 1, PaymeState.Created⟩,
          .created ⟨1000, 1, PaymeState.Created⟩] ∧
      Consistent exampleSetting createdAndPerformed ∧
      ∃ entry, (serve exampleSetting 2000 2000 createdAndPerformed (.statement 0 5000)).2 =
          .answered (.ok (.statement [entry])) ∧
        entry.id = "t1" ∧ entry.state = PaymeState.Performed := by
  have hcreate : parse exampleSetting .createTransaction (exampleParams "t1" 1000) =
      .ok (.create ⟨"t1", 1000, "order-1", .number (.finite 9900000)⟩) := rfl
  have hperform : parse exampleSetting .performTransaction (exampleTxn "t1") = .ok (.perform "t1") := rfl
  have hrun : Sequence exampleSetting (Plain exampleSetting) (openPayme exampleTenants [exampleOrder]).shared
      createdAndPerformed := by
    refine Sequence.call _ _ _ _ (Sequence.call _ _ _ _ (Sequence.call _ _ _ _ Sequence.start
      fun request result hparse _ => ?_) fun request result hparse _ => ?_) fun request result hparse _ => ?_
    · obtain rfl := Except.ok.inj (hparse.symm.trans hcreate)
      intro r hr _
      obtain rfl := List.mem_singleton.mp hr
      exact ⟨rfl, fun _ => ⟨1000, by norm_num⟩⟩
    · -- The second call finds the order pending, with its transaction.
      obtain rfl := Except.ok.inj (hparse.symm.trans hcreate)
      have hrows : ((answeredCreate 1000 (openPayme exampleTenants [exampleOrder]).shared).books.ledger.payments.all
          fun r => r.status == .pending && r.providerTxnId.isSome) = true := by
        decide +kernel
      intro r hr _
      have hrow := List.all_eq_true.mp hrows r hr
      rw [Bool.and_eq_true, beq_iff_eq] at hrow
      exact ⟨hrow.1, fun hnone => by simp [hnone] at hrow⟩
    · obtain rfl := Except.ok.inj (hparse.symm.trans hperform)
      trivial
  exact ⟨by decide +kernel, sequence_consistent fresh_exampleOrder hrun,
    ⟨"t1", 1000, 9900000, ("order_id", 1), 1000, 1500, 0, 1, PaymeState.Performed, none⟩,
    Pc.eq_of_result (by decide +kernel), rfl, rfl⟩

/-- CreateTransaction repeated after PerformTransaction answers Created, where CheckTransaction answers
Performed; and a creation time with a fraction is answered as quoted and stored without it. -/
theorem created_disagrees :
    (∃ w request result txn, Sequence exampleSetting (fun _ _ => True)
        (openPayme exampleTenants [exampleOrder]).shared w ∧ request.txn = some txn ∧
      (serve exampleSetting 2000 2000 w request).2 = .answered (.ok result) ∧
      ∀ check, Reports exampleSetting (serve exampleSetting 2000 2000 w request).1 txn check →
        check.state = PaymeState.Performed ∧ ¬ Agrees check result) ∧
    ∃ request result txn, request.txn = some txn ∧
      (serve exampleSetting 2000 2000 (openPayme exampleTenants [exampleOrder]).shared request).2 =
        .answered (.ok result) ∧
      ∀ check, Reports exampleSetting (serve exampleSetting 2000 2000
        (openPayme exampleTenants [exampleOrder]).shared request).1 txn check → ¬ Agrees check result := by
  have hreports : ∀ {w txn check} result, Reports exampleSetting w txn check →
      (serve exampleSetting 0 0 w (.check txn)).2.result = some result → result = .checked check := by
    intro w txn check result hreports hresult
    rw [hreports 0 0] at hresult
    exact (Option.some.inj hresult).symm
  refine ⟨⟨(rpc exampleSetting 1500 1500 (rpc exampleSetting 1000 1000
      (openPayme exampleTenants [exampleOrder]).shared .createTransaction (exampleParams "t1" 1000)).1
      .performTransaction (exampleTxn "t1")).1, .create ⟨"t1", 1000, "order-1", .number (.finite 9900000)⟩,
      .created ⟨1000, 1, 1⟩, "t1", ?_, rfl, Pc.eq_of_result (by decide +kernel), fun check hcheck => ?_⟩,
    .create ⟨"t1", 3 / 2, "order-1", .number (.finite 9900000)⟩, .created ⟨3 / 2, 1, 1⟩, "t1", rfl,
      Pc.eq_of_result (by decide +kernel), fun check hcheck => ?_⟩
  · exact Sequence.call _ _ _ _ (Sequence.call _ _ _ _ Sequence.start fun _ _ _ _ => trivial)
      fun _ _ _ _ => trivial
  · have hresult := hreports (.checked ⟨1000, 1500, 0, 1, 2, none⟩) hcheck (by decide +kernel)
    obtain rfl := Result.checked.inj hresult
    exact ⟨rfl, fun h => absurd h.2.1 (by decide)⟩
  · have hresult := hreports (.checked ⟨1, 0, 0, 1, 1, none⟩) hcheck (by decide +kernel)
    obtain rfl := Result.checked.inj hresult
    exact fun h => absurd h.2.2 (by norm_num)

end ESignSoft.Billing.Payme
