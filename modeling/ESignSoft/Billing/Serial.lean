import ESignSoft.Billing.Ledger

/-!
# Concurrent transactions amount to calls made one after the other

The transactions of `billing` overlap, but the workspace row each of them holds keeps what it has read
true until it commits: every step of the system leaves the books alone, is an event, or commits what
the sequential call `Call.run` would do on the ledger as it is at that moment.

* `books_step` — one step of the system is one `Books.Step`;
* `serial_run` — the call that commits is the call run alone;
* `books_invariant` — an assertion kept by every `Books.Step` holds in every reached state.
-/

namespace ESignSoft.Billing

open ESignSoft.Lib.Table ESignSoft.Lib.Interleaving

/-- The books as one sequential call, or one event, changes them. -/
inductive Books.Step : Books → Books → Prop
  | stay (b : Books) : Books.Step b b
  | call (b : Books) (c : Call) (out : Outcome) (r : Payment) (hr : r ∈ b.ledger.payments)
      (hclaim : c.claimable r = true) (hout : c.settle r (b.ledger.tenants c.tenant) = some out) :
      Books.Step b (b.commit c out)
  | event (b : Books) (e : Event) (L : Ledger) (h : e.apply b.ledger = some L) :
      Books.Step b { b with ledger := L }

/-! ## Rows -/

theorem Call.claimable_iff {c : Call} {r : Payment} :
    c.claimable r = true ↔ r.id = c.paymentId ∧ r.tenantId = c.tenant ∧ c.claims r.status = true := by
  simp [Call.claimable, and_assoc]

@[simp] theorem Call.claim_id (c : Call) (r : Payment) : (c.claim r).id = r.id := by
  cases c <;> rfl

@[simp] theorem Call.claim_tenantId (c : Call) (r : Payment) : (c.claim r).tenantId = r.tenantId := by
  cases c <;> rfl

@[simp] theorem Call.claim_months (c : Call) (r : Payment) : (c.claim r).months = r.months := by
  cases c <;> rfl

/-- What the calls look at and an event on the same row leaves alone. -/
def SameTerms (r r' : Payment) : Prop :=
  r'.id = r.id ∧ r'.tenantId = r.tenantId ∧ r'.status = r.status ∧ r'.months = r.months ∧
    r'.periodStart = r.periodStart ∧ r'.periodEnd = r.periodEnd

theorem SameTerms.refl (r : Payment) : SameTerms r r := ⟨rfl, rfl, rfl, rfl, rfl, rfl⟩

theorem SameTerms.claimable {r r' : Payment} (h : SameTerms r r') (c : Call) :
    c.claimable r' = c.claimable r := by
  obtain ⟨hid, htenant, hstatus, -⟩ := h
  unfold Call.claimable
  rw [hid, htenant, hstatus]

theorem SameTerms.settle {r r' : Payment} (h : SameTerms r r') (c : Call) (t : Tenant) :
    c.settle r' t = c.settle r t := by
  obtain ⟨-, -, -, hmonths, hstart, hend⟩ := h
  cases c with
  | activate t p now =>
      unfold Call.settle
      rw [hmonths]
  | cancel t p reason now =>
      unfold Call.settle
      rw [hstart, hend]

theorem Call.settle_claim (c : Call) (r : Payment) (t : Tenant) :
    c.settle (c.claim r) t = c.settle r t := by
  cases c <;> rfl

/-- The payment a claimed call goes on to read is the row it claimed. -/
theorem Call.find_eq {c : Call} {payments : List Payment} {r : Payment}
    (hids : (payments.map Payment.id).Nodup) (hr : r ∈ payments) (hclaim : c.claimable r = true) :
    c.find payments = some (c.claim r) := by
  obtain ⟨hid, htenant, -⟩ := Call.claimable_iff.mp hclaim
  have hmem : c.claim r ∈ updateMany c.claimable c.claim payments :=
    mem_updateMany.mpr ⟨r, hr, by rw [if_pos hclaim]⟩
  have hkeys : ((updateMany c.claimable c.claim payments).map Payment.id).Nodup := by
    rw [map_updateMany_eq Payment.id (fun q => c.claim_id q)]
    exact hids
  refine find?_eq_some_of_mem hkeys hmem (by simp [hid, htenant]) (fun q _ hq => ?_)
  simp only [Bool.and_eq_true, beq_iff_eq] at hq
  rw [hq.1, c.claim_id, hid]

/-! ## What one operation leaves alone -/

theorem Call.commit_payments (c : Call) (out : Outcome) (L : Ledger) :
    (c.commit out L).payments = updateMany c.claimable
      (fun r => match out with
        | .granted start stop => { c.claim r with periodStart := some start, periodEnd := some stop }
        | .reversed _ => c.claim r) L.payments := by
  cases out <;> rfl

theorem Call.commit_ids (c : Call) (out : Outcome) (L : Ledger) :
    (c.commit out L).payments.map Payment.id = L.payments.map Payment.id := by
  rw [Call.commit_payments]
  refine map_updateMany_eq Payment.id (fun r => ?_) L.payments
  cases out <;> exact c.claim_id r

theorem Call.commit_tenants_ne (c : Call) (out : Outcome) (L : Ledger) {t : Nat} (ht : t ≠ c.tenant) :
    (c.commit out L).tenants t = L.tenants t := by
  cases out <;> simp [Call.commit, ht]

/-- A call writes only payments of its own workspace. -/
theorem Call.mem_commit_of_tenant_ne {c : Call} (out : Outcome) {L : Ledger} {r : Payment}
    (hr : r ∈ L.payments) (ht : r.tenantId ≠ c.tenant) : r ∈ (c.commit out L).payments := by
  rw [Call.commit_payments]
  refine mem_updateMany.mpr ⟨r, hr, ?_⟩
  rw [if_neg]
  intro hclaim
  exact ht (Call.claimable_iff.mp hclaim).2.1

/-- The workspaces, the terms of every payment there was and the uniqueness of identifiers stay; a
payment that was not there before is pending. -/
structure KeepsTerms (L L' : Ledger) : Prop where
  tenants : L'.tenants = L.tenants
  forward : ∀ r ∈ L.payments, ∃ r' ∈ L'.payments, SameTerms r r'
  back : ∀ r' ∈ L'.payments, (∃ r ∈ L.payments, SameTerms r r') ∨
    (r'.id ∉ L.payments.map Payment.id ∧ r'.status = .pending ∧ r'.periodStart = none ∧
      r'.periodEnd = none ∧ 1 ≤ r'.months)
  ids : (L.payments.map Payment.id).Nodup → (L'.payments.map Payment.id).Nodup

/-- A note on some payments, outside their terms. -/
private theorem KeepsTerms.of_note {L : Ledger} (cond : Payment → Bool) {set : Payment → Payment}
    (hset : ∀ r, SameTerms r (set r)) :
    KeepsTerms L { L with payments := updateMany cond set L.payments } := by
  have hrows : List.Forall₂ SameTerms L.payments (updateMany cond set L.payments) :=
    forall₂_updateMany (fun r _ => SameTerms.refl r) (fun r _ _ => hset r)
  refine ⟨rfl, fun r hr => exists_of_forall₂_left hrows hr,
    fun r' hr' => Or.inl (exists_of_forall₂_right hrows hr'), fun hids => ?_⟩
  show ((updateMany cond set L.payments).map Payment.id).Nodup
  rw [map_updateMany_eq Payment.id (fun r => (hset r).1)]
  exact hids

/-- A purchase under an identifier not in use. -/
private theorem KeepsTerms.of_purchase {L : Ledger} {r : Payment} (hfresh : r.id ∉ L.payments.map Payment.id)
    (hnew : r.status = .pending ∧ r.periodStart = none ∧ r.periodEnd = none ∧ 1 ≤ r.months) :
    KeepsTerms L { L with payments := L.payments ++ [r] } where
  tenants := rfl
  forward q hq := ⟨q, by simp [hq], SameTerms.refl q⟩
  back r' hr' := by
    rcases List.mem_append.mp hr' with hold | hadded
    · exact Or.inl ⟨r', hold, SameTerms.refl r'⟩
    · obtain rfl := List.mem_singleton.mp hadded
      exact Or.inr ⟨hfresh, hnew⟩
  ids hids := by
    simp only [List.map_append, List.map_cons, List.map_nil]
    exact List.Nodup.append hids (List.nodup_singleton _) (by simpa using hfresh)

/-- An event settles nothing. -/
theorem Event.apply_spec {e : Event} {L L' : Ledger} (h : e.apply L = some L') : KeepsTerms L L' := by
  cases e with
  | checkout id tenant plan provider months now =>
      simp only [Event.apply] at h
      split at h
      · cases h
      · rename_i amount hprice
        split at h
        · cases h
        · rename_i hfresh
          obtain rfl := Option.some.inj h
          have hmonths : 1 ≤ months := by
            unfold priceTiyin at hprice
            split at hprice
            · cases hprice
            · omega
          refine KeepsTerms.of_purchase (fun hmem => ?_) ⟨rfl, rfl, rfl, hmonths⟩
          obtain ⟨r, hr, hid⟩ := List.mem_map.mp hmem
          exact hfresh (List.any_eq_true.mpr ⟨r, hr, by simpa [newPayment] using hid⟩)
  | attachProviderTxn id txn createdAt =>
      simp only [Event.apply] at h
      split at h
      · cases h
      · split at h
        · cases h
        · obtain rfl := Option.some.inj h
          exact KeepsTerms.of_note _ fun r => ⟨rfl, rfl, rfl, rfl, rfl, rfl⟩
  | attachClickPrepareId id prepareId =>
      simp only [Event.apply] at h
      split at h
      · obtain rfl := Option.some.inj h
        exact KeepsTerms.of_note _ fun r => ⟨rfl, rfl, rfl, rfl, rfl, rfl⟩
      · cases h

/-! ## The proof outline -/

/-- What a transaction may rely on: it holds its workspace row, the payment it claimed is still
claimable, and what it read or decided still stands. -/
def Holding (w : World) (p : Nat) : Tx → Prop
  | .claiming c => w.rowLock c.tenant = some p
  | .reading c => w.rowLock c.tenant = some p ∧
      ∃ r ∈ w.books.ledger.payments, c.claimable r = true
  | .settling c payment => w.rowLock c.tenant = some p ∧
      ∃ r ∈ w.books.ledger.payments, c.claimable r = true ∧ ∀ t, c.settle payment t = c.settle r t
  | .committing c out => w.rowLock c.tenant = some p ∧
      ∃ r ∈ w.books.ledger.payments, c.claimable r = true ∧
        c.settle r (w.books.ledger.tenants c.tenant) = some out
  | _ => True

/-- What every transaction and every event keeps about the shared state. -/
def Unique (w : World) : Prop := (w.books.ledger.payments.map Payment.id).Nodup

/-- A transaction's reliance survives when its own lock, its workspace and its workspace's payments
do. -/
private theorem Holding.frame {w w' : World} {p : Nat} {tx : Tx} (h : Holding w p tx)
    (hlock : ∀ t, w.rowLock t = some p → w'.rowLock t = some p)
    (htenant : ∀ t, w.rowLock t = some p → w'.books.ledger.tenants t = w.books.ledger.tenants t)
    (hrows : ∀ t, w.rowLock t = some p → ∀ r ∈ w.books.ledger.payments, r.tenantId = t →
      ∃ r' ∈ w'.books.ledger.payments, SameTerms r r') : Holding w' p tx := by
  cases tx with
  | idle => trivial
  | locking c => trivial
  | returned claimed => trivial
  | claiming c => exact hlock _ h
  | reading c =>
      obtain ⟨hheld, r, hr, hclaim⟩ := h
      obtain ⟨r', hr', hsame⟩ := hrows _ hheld r hr (Call.claimable_iff.mp hclaim).2.1
      exact ⟨hlock _ hheld, r', hr', by rw [hsame.claimable]; exact hclaim⟩
  | settling c payment =>
      obtain ⟨hheld, r, hr, hclaim, hsettle⟩ := h
      obtain ⟨r', hr', hsame⟩ := hrows _ hheld r hr (Call.claimable_iff.mp hclaim).2.1
      refine ⟨hlock _ hheld, r', hr', ?_, fun t => ?_⟩
      · rw [hsame.claimable]
        exact hclaim
      · rw [hsame.settle]
        exact hsettle t
  | committing c out =>
      obtain ⟨hheld, r, hr, hclaim, hsettle⟩ := h
      obtain ⟨r', hr', hsame⟩ := hrows _ hheld r hr (Call.claimable_iff.mp hclaim).2.1
      refine ⟨hlock _ hheld, r', hr', ?_, ?_⟩
      · rw [hsame.claimable]
        exact hclaim
      · rw [hsame.settle, htenant _ hheld]
        exact hsettle

/-- What one step of transaction `p` may do to the shared state: take a free row or let go of its own,
and commit the call it holds the row for. -/
structure Effect (p : Nat) (w w' : World) : Prop where
  locks : ∀ t, w'.rowLock t ≠ w.rowLock t → w.rowLock t = none ∨ w.rowLock t = some p
  books : w'.books = w.books ∨
    ∃ c out r, w.rowLock c.tenant = some p ∧ r ∈ w.books.ledger.payments ∧ c.claimable r = true ∧
      c.settle r (w.books.ledger.tenants c.tenant) = some out ∧ w'.books = w.books.commit c out

private theorem Effect.refl (p : Nat) (w : World) : Effect p w w :=
  ⟨fun _ h => absurd rfl h, Or.inl rfl⟩

private theorem Effect.release {p : Nat} {w : World} {c : Call} (h : w.rowLock c.tenant = some p) :
    Effect p w (w.release c) := by
  refine ⟨fun t ht => ?_, Or.inl rfl⟩
  by_cases hc : t = c.tenant
  · exact Or.inr (hc ▸ h)
  · exact absurd (by simp [World.release, hc]) ht

theorem act_spec {p : Nat} {choice : Choice} {w w' : World} {tx tx' : Tx}
    (h : act p choice w tx = some (w', tx')) (hown : Holding w p tx) (hunique : Unique w) :
    Holding w' p tx' ∧ Effect p w w' := by
  cases choice with
  | call c =>
      cases tx <;> simp only [act, Option.some.injEq, Prod.mk.injEq, reduceCtorEq] at h
      all_goals
        obtain ⟨rfl, rfl⟩ := h
        exact ⟨trivial, Effect.refl p w⟩
  | abort =>
      cases tx with
      | idle => cases h
      | returned claimed => cases h
      | locking c =>
          obtain ⟨rfl, rfl⟩ := Prod.mk.inj (Option.some.inj h)
          exact ⟨trivial, Effect.refl p w⟩
      | claiming c =>
          obtain ⟨rfl, rfl⟩ := Prod.mk.inj (Option.some.inj h)
          exact ⟨trivial, Effect.release hown⟩
      | reading c =>
          obtain ⟨rfl, rfl⟩ := Prod.mk.inj (Option.some.inj h)
          exact ⟨trivial, Effect.release hown.1⟩
      | settling c payment =>
          obtain ⟨rfl, rfl⟩ := Prod.mk.inj (Option.some.inj h)
          exact ⟨trivial, Effect.release hown.1⟩
      | committing c out =>
          obtain ⟨rfl, rfl⟩ := Prod.mk.inj (Option.some.inj h)
          exact ⟨trivial, Effect.release hown.1⟩
  | next =>
      cases tx with
      | idle => cases h
      | returned claimed => cases h
      | locking c =>
          simp only [act] at h
          split at h
          · rename_i hfree
            obtain ⟨rfl, rfl⟩ := Prod.mk.inj (Option.some.inj h)
            refine ⟨by simp [Holding], fun t ht => ?_, Or.inl rfl⟩
            by_cases hc : t = c.tenant
            · exact Or.inl (hc ▸ hfree)
            · exact absurd (by simp [hc]) ht
          · cases h
      | claiming c =>
          -- Without a claimable payment the transaction ends; the row it holds is released.
          simp only [act] at h
          split at h
          · obtain ⟨rfl, rfl⟩ := Prod.mk.inj (Option.some.inj h)
            exact ⟨trivial, Effect.release hown⟩
          · rename_i hcount
            obtain ⟨rfl, rfl⟩ := Prod.mk.inj (Option.some.inj h)
            exact ⟨⟨hown, exists_of_matchCount_pos (Nat.pos_of_ne_zero hcount)⟩, Effect.refl p _⟩
      | reading c =>
          -- Identifiers are unique, so the payment that is read back is the one that was claimed.
          obtain ⟨hheld, r, hr, hclaim⟩ := hown
          simp only [act, Call.find_eq hunique hr hclaim] at h
          obtain ⟨rfl, rfl⟩ := Prod.mk.inj (Option.some.inj h)
          exact ⟨⟨hheld, r, hr, hclaim, fun t => c.settle_claim r t⟩, Effect.refl p _⟩
      | settling c payment =>
          obtain ⟨hheld, r, hr, hclaim, hsettle⟩ := hown
          simp only [act, hsettle] at h
          split at h
          · rename_i out hout
            obtain ⟨rfl, rfl⟩ := Prod.mk.inj (Option.some.inj h)
            exact ⟨⟨hheld, r, hr, hclaim, hout⟩, Effect.refl p _⟩
          · obtain ⟨rfl, rfl⟩ := Prod.mk.inj (Option.some.inj h)
            exact ⟨trivial, Effect.release hheld⟩
      | committing c out =>
          obtain ⟨hheld, r, hr, hclaim, hsettle⟩ := hown
          obtain ⟨rfl, rfl⟩ := Prod.mk.inj (Option.some.inj h)
          exact ⟨trivial, (Effect.release hheld).locks,
            Or.inr ⟨c, out, r, hheld, hr, hclaim, hsettle, rfl⟩⟩

/-- The other transactions' reliance outlives a step of this one. -/
private theorem Effect.others {p q : Nat} {w w' : World} {tx : Tx} (heffect : Effect p w w')
    (hq : q ≠ p) (h : Holding w q tx) : Holding w' q tx := by
  refine h.frame (fun t ht => ?_) (fun t ht => ?_) (fun t ht r hr hrt => ?_)
  · by_contra hchanged
    have hlock := heffect.locks t (by rw [ht]; exact hchanged)
    rw [ht] at hlock
    rcases hlock with hnone | hsome
    · cases hnone
    · exact hq (Option.some.inj hsome)
  all_goals
    rcases heffect.books with hsame | ⟨c, out, _, hheld, -, -, -, hcommit⟩
  · rw [hsame]
  · -- Two transactions that hold the row of one workspace would be the same.
    rw [hcommit]
    refine Call.commit_tenants_ne c out _ ?_
    rintro rfl
    exact hq (Option.some.inj (ht.symm.trans hheld))
  · rw [hsame]
    exact ⟨r, hr, SameTerms.refl r⟩
  · rw [hcommit]
    refine ⟨r, Call.mem_commit_of_tenant_ne out hr ?_, SameTerms.refl r⟩
    rintro hrc
    exact hq (Option.some.inj (ht.symm.trans (by rw [← hrt, hrc]; exact hheld)))

private theorem Effect.unique {p : Nat} {w w' : World} (heffect : Effect p w w') (h : Unique w) :
    Unique w' := by
  rcases heffect.books with hsame | ⟨c, out, _, _, -, -, -, hcommit⟩
  · unfold Unique
    rw [hsame]
    exact h
  · unfold Unique
    rw [hcommit]
    show ((c.commit out w.books.ledger).payments.map Payment.id).Nodup
    rw [Call.commit_ids]
    exact h

/-- Overlapping transactions under their row locks, as a proof outline. -/
theorem outline : ProofOutline billing (fun _ _ => True) Unique Holding (fun _ _ => True) where
  act s p choice w' tx' hs _ hact := by
    obtain ⟨hown, heffect⟩ := act_spec hact (hs.proc p) hs.shared
    exact ⟨heffect.unique hs.shared, hown, fun q hq => heffect.others hq (hs.proc q),
      fun q _ => ⟨trivial, trivial⟩⟩
  env s e w' hs _ henv := by
    obtain ⟨L, hL, rfl⟩ := Option.map_eq_some_iff.mp henv
    obtain ⟨htenants, hrows, -, hids⟩ := Event.apply_spec hL
    refine ⟨hids hs.shared, fun q => (hs.proc q).frame (fun t ht => ht) (fun t _ => ?_)
      (fun t _ r hr _ => hrows r hr)⟩
    show L.tenants t = _
    rw [htenants]

/-- The assertions of the outline hold before the first transaction. -/
theorem Unsettled.holds {payments : List Payment} (h : Unsettled payments) (tenants : Nat → Tenant) :
    Holds Unique Holding (fun _ _ => True) (openSystem tenants payments) :=
  ⟨h.ids, fun _ => trivial, fun _ _ _ => trivial⟩

/-! ## What the system does to the books -/

/-- **One step of the system is one sequential call, one event or nothing**, as far as the books are
concerned. -/
theorem books_step {s s' : System World Tx} {l : Label Choice Event}
    (hs : Holds Unique Holding (fun _ _ => True) s) (h : billing.step s l = some s') :
    Books.Step s.shared.books s'.shared.books := by
  cases l with
  | proc p choice =>
      obtain ⟨w', tx', hact, rfl⟩ := Program.step_proc h
      obtain ⟨-, heffect⟩ := act_spec hact (hs.proc p) hs.shared
      show Books.Step s.shared.books w'.books
      rcases heffect.books with hsame | ⟨c, out, r, -, hr, hclaim, hsettle, hcommit⟩
      · rw [hsame]
        exact Books.Step.stay _
      · rw [hcommit]
        exact Books.Step.call _ c out r hr hclaim hsettle
  | env e =>
      obtain ⟨w', henv, rfl⟩ := Program.step_env h
      obtain ⟨L, hL, rfl⟩ := Option.map_eq_some_iff.mp henv
      exact Books.Step.event _ e L hL

/-- The call that commits is the call run alone on the ledger as it is then. -/
theorem serial_run {L : Ledger} {c : Call} {out : Outcome} {r : Payment}
    (hids : (L.payments.map Payment.id).Nodup) (hr : r ∈ L.payments) (hclaim : c.claimable r = true)
    (hsettle : c.settle r (L.tenants c.tenant) = some out) :
    c.run L = some (true, c.commit out L) := by
  have hcount : matchCount c.claimable L.payments ≠ 0 :=
    Nat.pos_iff_ne_zero.mp (matchCount_pos_of_mem hr hclaim)
  simp only [Call.run, if_neg hcount, Call.find_eq hids hr hclaim, Option.bind_eq_bind,
    Option.bind_some, c.settle_claim, hsettle]

/-- An assertion on the books kept by every sequential step holds of every reached state. -/
theorem books_invariant {I : Books → Prop} (hstep : ∀ b b', I b → Books.Step b b' → I b')
    {s₀ s : System World Tx} (h : Reaches billing (fun _ _ => True) s₀ s)
    (h₀ : Holds Unique Holding (fun _ _ => True) s₀) (hI : I s₀.shared.books) : I s.shared.books := by
  have hboth := Reaches.invariant
    (I := fun s => Holds Unique Holding (fun _ _ => True) s ∧ I s.shared.books)
    (fun t l t' ht hok hl => ⟨outline.holds_step t l t' ht.1 hok hl,
      hstep _ _ ht.2 (books_step ht.1 hl)⟩) h ⟨h₀, hI⟩
  exact hboth.2

end ESignSoft.Billing
