import ESignSoft.Envelope.Rows

/-!
# What a transaction can do to a row

`RowStep w r r'` lists the ways the transaction `w` changes a recipient's row, each with the guard it
was made under.  Every fact about the history of a row is a case analysis on it.

* `onRecipient_spec` — a transaction does nothing else to a row;
* `exists_of_mem_write` and `mem_write` — the rows after a transaction are the rows before it, each
  changed that way.
-/

namespace ESignSoft.Envelope

open ESignSoft.Lib.JsText ESignSoft.Lib.Table ESignSoft.Contracts ESignSoft.Signing

inductive RowStep (w : Write) (r : Recipient) : Recipient → Prop
  | same : RowStep w r r
  | viewed (now : Int) (ip ua : Option JsString) (hw : w = .viewed r.id now ip ua)
      (hsent : r.status = .sent) :
      RowStep w r
        { r with status := .viewed, viewedAt := some now, viewedIp := ip, viewedUserAgent := ua }
  | consented (now : Int) (hw : w = .consented r.id now) (hopen : r.open_ = true)
      (hnone : r.consentAt = none) : RowStep w r { r with consentAt := some now }
  | claimed (hash : TokenHash) (data : ClaimData) (hw : w = .claimed r.id hash data)
      (hhash : r.signingTokenHash = some hash) (hopen : r.open_ = true) :
      RowStep w r
        { r with
          status := .completed
          completedAt := some data.completedAt
          signatureMethod := some data.signatureMethod
          signatureImageKey := some data.signatureImageKey
          fieldValues := data.fieldValues
          signerIp := data.signerIp
          signerUserAgent := data.signerUserAgent }
  | activated (group : List HandOff) (now : Int) (hw : w = .handedOff group now)
      (hcc : HandOff.cc r.id ∈ group) :
      RowStep w r { r with status := .sent, sentAt := some now }
  | invited (group : List HandOff) (now : Int) (token : Nat) (hw : w = .handedOff group now)
      (hsigner : HandOff.signer r.id token ∈ group) (hpending : r.status = .pending) :
      RowStep w r
        { r with status := .sent, sentAt := some now, signingTokenHash := some (.sha256 token) }
  | cleared (hw : (∃ passed now, w = .voided passed now) ∨ ∃ passed told now, w = .expired passed told now)
      (hleft : r.status ≠ .completed) : RowStep w r { r with signingTokenHash := none }
  | resent (token : Nat) (now : Int) (hw : w = .resent r.id token now) :
      RowStep w r
        { r with signingTokenHash := some (.sha256 token), sentAt := some now, status := .sent }
  | reminded (token : Nat) (now : Int) (hw : w = .reminded r.id token r.reminderCount now) :
      RowStep w r
        { r with
          signingTokenHash := some (.sha256 token)
          lastRemindedAt := some now
          reminderCount := r.reminderCount + 1 }

theorem Recipient.open_iff {r : Recipient} :
    r.open_ = true ↔ r.status = .sent ∨ r.status = .viewed := by
  simp [Recipient.open_]

theorem SignatureRequest.open_iff {s : SignatureRequest} :
    s.open_ = true ↔ s.status = .sent ∨ s.status = .viewed := by
  simp [SignatureRequest.open_]

/-! ## Hand-offs -/

/-- The updates of a hand-off leave a row alone, activate it or invite it; the last that matches wins. -/
private theorem foldl_handOff_spec (now : Int) (group : List HandOff) (r : Recipient) :
    let r' := group.foldl (fun r h => h.onRecipient now r) r
    r' = r ∨
    (HandOff.cc r.id ∈ group ∧ r' = { r with status := .sent, sentAt := some now }) ∨
    ∃ token, HandOff.signer r.id token ∈ group ∧ r.status = .pending ∧
      r' = { r with status := .sent, sentAt := some now, signingTokenHash := some (.sha256 token) } := by
  induction group using List.reverseRecOn with
  | nil => exact Or.inl rfl
  | append_singleton rest h ih =>
      simp only [List.foldl_append, List.foldl_cons, List.foldl_nil] at ih ⊢
      generalize rest.foldl (fun r h => h.onRecipient now r) r = q at ih ⊢
      have hlast : h ∈ rest ++ [h] := by simp
      have hearlier : ∀ g, g ∈ rest → g ∈ rest ++ [h] := fun g hg => by simp [hg]
      have hid : q.id = r.id := by
        rcases ih with rfl | ⟨-, rfl⟩ | ⟨_, -, -, rfl⟩ <;> rfl
      cases h with
      | cc id =>
          by_cases hcc : (q.id == id) = true
          · -- The status is set whatever the row was before.
            have hidr : id = r.id := by rw [← hid, eq_of_beq hcc]
            subst hidr
            have hq : HandOff.onRecipient now (.cc r.id) q = { q with status := .sent, sentAt := some now } := by
              simp only [HandOff.onRecipient, updateRow, hcc, if_true]
            rw [hq]
            rcases ih with rfl | ⟨-, rfl⟩ | ⟨token, hmem, hpending, rfl⟩
            · exact Or.inr (Or.inl ⟨hlast, rfl⟩)
            · exact Or.inr (Or.inl ⟨hlast, rfl⟩)
            · exact Or.inr (Or.inr ⟨token, hearlier _ hmem, hpending, rfl⟩)
          · -- The update is of another row.
            have hq : HandOff.onRecipient now (.cc id) q = q := by
              simp [HandOff.onRecipient, updateRow, hcc]
            rw [hq]
            rcases ih with h1 | ⟨hmem, h2⟩ | ⟨token, hmem, h3⟩
            · exact Or.inl h1
            · exact Or.inr (Or.inl ⟨hearlier _ hmem, h2⟩)
            · exact Or.inr (Or.inr ⟨token, hearlier _ hmem, h3⟩)
      | signer id token =>
          by_cases hs : (q.id == id && q.status == .pending) = true
          · have hq : HandOff.onRecipient now (.signer id token) q =
                { q with status := .sent, sentAt := some now, signingTokenHash := some (.sha256 token) } := by
              simp only [HandOff.onRecipient, updateRow, hs, if_true]
            rw [hq]
            simp only [Bool.and_eq_true, beq_iff_eq] at hs
            have hidr : id = r.id := by rw [← hid, hs.1]
            subst hidr
            -- Nobody is invited who was activated or invited before: they wait no longer.
            rcases ih with rfl | ⟨-, rfl⟩ | ⟨_, -, -, rfl⟩
            · exact Or.inr (Or.inr ⟨token, hlast, hs.2, rfl⟩)
            · cases hs.2
            · cases hs.2
          · have hq : HandOff.onRecipient now (.signer id token) q = q := by
              simp only [HandOff.onRecipient, updateRow, if_neg hs]
            rw [hq]
            rcases ih with h1 | ⟨hmem, h2⟩ | ⟨token, hmem, h3⟩
            · exact Or.inl h1
            · exact Or.inr (Or.inl ⟨hearlier _ hmem, h2⟩)
            · exact Or.inr (Or.inr ⟨token, hearlier _ hmem, h3⟩)

/-- A hand-off leaves nobody it is for waiting. -/
theorem handedOff_not_pending {now : Int} {group : List HandOff} {r : Recipient}
    (h : HandOff.cc r.id ∈ group ∨ ∃ token, HandOff.signer r.id token ∈ group) :
    ((Write.handedOff group now).onRecipient r).status ≠ .pending := by
  show (group.foldl (fun r h => h.onRecipient now r) r).status ≠ .pending
  induction group using List.reverseRecOn with
  | nil => simp at h
  | append_singleton rest g ih =>
      simp only [List.foldl_append, List.foldl_cons, List.foldl_nil]
      have hid : (rest.foldl (fun r h => h.onRecipient now r) r).id = r.id := by
        rcases foldl_handOff_spec now rest r with h | ⟨-, h⟩ | ⟨_, -, -, h⟩ <;> rw [h]
      generalize rest.foldl (fun r h => h.onRecipient now r) r = q at ih hid ⊢
      by_cases hrest : HandOff.cc r.id ∈ rest ∨ ∃ token, HandOff.signer r.id token ∈ rest
      · -- No update makes a row wait again.
        have hq := ih hrest
        cases g with
        | cc id =>
            unfold HandOff.onRecipient updateRow
            simp only
            split
            · simp
            · exact hq
        | signer id token =>
            unfold HandOff.onRecipient updateRow
            simp only
            split
            · simp
            · exact hq
      · -- The last update is the one for this row.
        simp only [not_or, not_exists] at hrest
        cases g with
        | cc id =>
            have hidr : id = r.id := by
              rcases h with h | ⟨token, h⟩
              · simpa [hrest.1, eq_comm] using h
              · simp [hrest.2 token] at h
            unfold HandOff.onRecipient updateRow
            simp [hid, hidr]
        | signer id token =>
            have hidr : id = r.id := by
              rcases h with h | ⟨token', h⟩
              · simp [hrest.1] at h
              · have := h
                simp only [List.mem_append, hrest.2 token', List.mem_singleton, false_or] at this
                exact (HandOff.signer.inj this).1.symm
            unfold HandOff.onRecipient updateRow
            simp only [hid, hidr, beq_self_eq_true, Bool.true_and, beq_iff_eq]
            split
            · simp
            · assumption

/-! ## Every transaction -/

/-- An update of one row leaves it alone or, where its condition holds, writes it. -/
private theorem updateRow_step {w : Write} {r : Recipient} {cond : Recipient → Bool}
    {set : Recipient → Recipient} (h : cond r = true → RowStep w r (set r)) :
    RowStep w r (updateRow cond set r) := by
  by_cases hr : cond r = true
  · rw [updateRow_of_true hr]
    exact h hr
  · rw [updateRow_of_false (Bool.eq_false_iff.mpr hr)]
    exact RowStep.same

theorem onRecipient_spec (w : Write) (r : Recipient) : RowStep w r (w.onRecipient r) := by
  cases w with
  | viewed id now ip ua =>
      apply updateRow_step
      intro h
      simp only [Bool.and_eq_true, beq_iff_eq] at h
      exact RowStep.viewed now ip ua (by rw [h.1]) h.2
  | consented id now =>
      apply updateRow_step
      intro h
      simp only [Bool.and_eq_true, beq_iff_eq] at h
      exact RowStep.consented now (by rw [h.1.1]) h.1.2 h.2
  | claimed id hash data =>
      apply updateRow_step
      intro h
      simp only [Bool.and_eq_true, beq_iff_eq] at h
      exact RowStep.claimed hash data (by rw [h.1.1]) h.1.2 h.2
  | handedOff group now =>
      rcases foldl_handOff_spec now group r with h | ⟨hcc, h⟩ | ⟨token, hmem, hpending, h⟩
      · show RowStep _ r (group.foldl (fun r h => h.onRecipient now r) r)
        rw [h]
        exact RowStep.same
      · show RowStep _ r (group.foldl (fun r h => h.onRecipient now r) r)
        rw [h]
        exact RowStep.activated group now rfl hcc
      · show RowStep _ r (group.foldl (fun r h => h.onRecipient now r) r)
        rw [h]
        exact RowStep.invited group now token rfl hmem hpending
  | voided passed now =>
      apply updateRow_step
      intro h
      simp only [Bool.and_eq_true, bne_iff_ne] at h
      exact RowStep.cleared (Or.inl ⟨passed, now, rfl⟩) h.1
  | resent id token now =>
      apply updateRow_step
      intro h
      exact RowStep.resent token now (by rw [eq_of_beq h])
  | expired passed told now =>
      apply updateRow_step
      intro h
      simp only [Bool.and_eq_true, bne_iff_ne] at h
      exact RowStep.cleared (Or.inr ⟨passed, told, now, rfl⟩) h.1
  | reminded id token reminderCount now =>
      apply updateRow_step
      intro h
      simp only [Bool.and_eq_true, beq_iff_eq] at h
      obtain ⟨rfl, rfl⟩ := h
      exact RowStep.reminded token now rfl
  | viewedLegacy now ip ua => exact RowStep.same
  | consentedLegacy now => exact RowStep.same
  | claimedLegacy hash data => exact RowStep.same
  | completed now => exact RowStep.same
  | deleted => exact RowStep.same

@[simp] theorem onRecipient_id (w : Write) (r : Recipient) : (w.onRecipient r).id = r.id := by
  have hspec := onRecipient_spec w r
  generalize w.onRecipient r = r' at hspec ⊢
  cases hspec <;> rfl

@[simp] theorem onRecipient_email (w : Write) (r : Recipient) : (w.onRecipient r).email = r.email := by
  have hspec := onRecipient_spec w r
  generalize w.onRecipient r = r' at hspec ⊢
  cases hspec <;> rfl

@[simp] theorem onRecipient_name (w : Write) (r : Recipient) : (w.onRecipient r).name = r.name := by
  have hspec := onRecipient_spec w r
  generalize w.onRecipient r = r' at hspec ⊢
  cases hspec <;> rfl

@[simp] theorem onRecipient_role (w : Write) (r : Recipient) : (w.onRecipient r).role = r.role := by
  have hspec := onRecipient_spec w r
  generalize w.onRecipient r = r' at hspec ⊢
  cases hspec <;> rfl

@[simp] theorem onRecipient_routingOrder (w : Write) (r : Recipient) :
    (w.onRecipient r).routingOrder = r.routingOrder := by
  have hspec := onRecipient_spec w r
  generalize w.onRecipient r = r' at hspec ⊢
  cases hspec <;> rfl

/-- Only a claim completes a row. -/
theorem onRecipient_completed {w : Write} {r : Recipient}
    (h : (w.onRecipient r).status = .completed) :
    r.status = .completed ∨ ∃ hash data, w = .claimed r.id hash data ∧
      r.signingTokenHash = some hash ∧ r.open_ = true := by
  have hspec := onRecipient_spec w r
  generalize w.onRecipient r = r' at h hspec
  cases hspec with
  | same => exact Or.inl h
  | viewed now ip ua hw hsent => cases h
  | consented now hw hopen hnone => exact Or.inl h
  | claimed hash data hw hhash hopen => exact Or.inr ⟨hash, data, hw, hhash, hopen⟩
  | activated group now hw hcc => cases h
  | invited group now token hw hsigner hpending => cases h
  | cleared hw hleft => exact Or.inl h
  | resent token now hw => cases h
  | reminded token now hw => exact Or.inl h

/-! ## Links -/

/-- The links a transaction stores: whose, and made from which token. -/
def Write.links : Write → List (Nat × Nat)
  | .handedOff group _ => group.filterMap fun h =>
      match h with
      | .signer id token => some (id, token)
      | .cc _ => none
  | .resent id token _ => [(id, token)]
  | .reminded id token _ _ => [(id, token)]
  | _ => []

/-- The recipients a transaction activates without a link. -/
def Write.activates : Write → List Nat
  | .handedOff group _ => group.filterMap fun h =>
      match h with
      | .signer _ _ => none
      | .cc id => some id
  | _ => []

theorem mem_links_handedOff {group : List HandOff} {now : Int} {id token : Nat} :
    (id, token) ∈ (Write.handedOff group now).links ↔ HandOff.signer id token ∈ group := by
  simp only [Write.links, List.mem_filterMap]
  constructor
  · rintro ⟨h, hmem, heq⟩
    cases h with
    | cc id' => cases heq
    | signer id' token' =>
        obtain ⟨rfl, rfl⟩ := Prod.mk.inj (Option.some.inj heq)
        exact hmem
  · intro hmem
    exact ⟨_, hmem, rfl⟩

theorem mem_activates_handedOff {group : List HandOff} {now : Int} {id : Nat} :
    id ∈ (Write.handedOff group now).activates ↔ HandOff.cc id ∈ group := by
  simp only [Write.activates, List.mem_filterMap]
  constructor
  · rintro ⟨h, hmem, heq⟩
    cases h with
    | cc id' =>
        obtain rfl := Option.some.inj heq
        exact hmem
    | signer id' token' => cases heq
  · intro hmem
    exact ⟨_, hmem, rfl⟩

/-- A transaction leaves a link alone, clears it, or stores one of its own. -/
theorem onRecipient_hash (w : Write) (r : Recipient) :
    (w.onRecipient r).signingTokenHash = r.signingTokenHash ∨
    (w.onRecipient r).signingTokenHash = none ∨
    ∃ token, (r.id, token) ∈ w.links ∧
      (w.onRecipient r).signingTokenHash = some (.sha256 token) := by
  have hspec := onRecipient_spec w r
  generalize w.onRecipient r = r' at hspec ⊢
  cases hspec with
  | invited group now token hw hsigner hpending =>
      refine Or.inr (Or.inr ⟨token, ?_, rfl⟩)
      rw [hw]
      exact mem_links_handedOff.mpr hsigner
  | resent token now hw =>
      refine Or.inr (Or.inr ⟨token, ?_, rfl⟩)
      rw [hw]
      exact List.mem_singleton.mpr rfl
  | reminded token now hw =>
      refine Or.inr (Or.inr ⟨token, ?_, rfl⟩)
      rw [hw]
      exact List.mem_singleton.mpr rfl
  | cleared hw hleft => exact Or.inr (Or.inl rfl)
  | _ => exact Or.inl rfl

/-! ## The envelope's row -/

/-- What of an envelope's row no transaction changes. -/
private theorem onRequest_keeps (w : Write) (s : SignatureRequest) :
    (w.onRequest s).routingMode = s.routingMode ∧ (w.onRequest s).signingTokenHash = s.signingTokenHash ∧
      (w.onRequest s).senderEmail = s.senderEmail ∧ (w.onRequest s).recipientEmail = s.recipientEmail ∧
      (w.onRequest s).recipientName = s.recipientName := by
  cases w <;> unfold Write.onRequest <;> dsimp only [updateRow] <;>
    first
      | exact ⟨rfl, rfl, rfl, rfl, rfl⟩
      | split_ifs <;> exact ⟨rfl, rfl, rfl, rfl, rfl⟩

@[simp] theorem onRequest_routingMode (w : Write) (s : SignatureRequest) :
    (w.onRequest s).routingMode = s.routingMode := (onRequest_keeps w s).1

@[simp] theorem onRequest_signingTokenHash (w : Write) (s : SignatureRequest) :
    (w.onRequest s).signingTokenHash = s.signingTokenHash := (onRequest_keeps w s).2.1

@[simp] theorem onRequest_senderEmail (w : Write) (s : SignatureRequest) :
    (w.onRequest s).senderEmail = s.senderEmail := (onRequest_keeps w s).2.2.1

@[simp] theorem onRequest_recipientEmail (w : Write) (s : SignatureRequest) :
    (w.onRequest s).recipientEmail = s.recipientEmail := (onRequest_keeps w s).2.2.2.1

@[simp] theorem onRequest_recipientName (w : Write) (s : SignatureRequest) :
    (w.onRequest s).recipientName = s.recipientName := (onRequest_keeps w s).2.2.2.2

/-- A completed or voided envelope stays so. -/
theorem onRequest_final {w : Write} {s : SignatureRequest}
    (h : s.status = .completed ∨ s.status = .voided) : (w.onRequest s).status = s.status := by
  rcases h with h | h <;> cases w <;>
    simp [Write.onRequest, updateRow, SignatureRequest.open_, h] <;> split_ifs <;> simp [h]

/-- An open envelope stays open, completes or is voided, unless it is retired. -/
theorem onRequest_of_open {w : Write} {s : SignatureRequest} (hopen : s.open_ = true)
    (hw : ∀ passed told now, w ≠ .expired passed told now) :
    (w.onRequest s).open_ = true ∨ (w.onRequest s).status = .completed ∨
      (w.onRequest s).status = .voided := by
  cases w with
  | expired passed told now => exact absurd rfl (hw passed told now)
  | viewed id now ip ua | viewedLegacy now ip ua | consentedLegacy now =>
      refine Or.inl ?_
      simp only [Write.onRequest, updateRow]
      split
      · first | rfl | exact hopen
      · exact hopen
  | claimedLegacy hash data =>
      simp only [Write.onRequest, updateRow]
      split
      · exact Or.inr (Or.inl rfl)
      · exact Or.inl hopen
  | completed now =>
      refine Or.inr (Or.inl ?_)
      simp only [Write.onRequest, updateRow, hopen, if_true]
  | voided passed now =>
      refine Or.inr (Or.inr ?_)
      simp only [Write.onRequest, updateRow, hopen, Bool.true_or, if_true]
  | _ => exact Or.inl hopen

/-- Only an open envelope is open after a transaction. -/
theorem open_of_onRequest {write : Write} {row : SignatureRequest} (h : (write.onRequest row).open_ = true) :
    row.open_ = true := by
  cases hstatus : row.status with
  | sent => simp [SignatureRequest.open_, hstatus]
  | viewed => simp [SignatureRequest.open_, hstatus]
  | completed =>
      rw [SignatureRequest.open_iff, onRequest_final (Or.inl hstatus), hstatus] at h
      simp at h
  | voided =>
      rw [SignatureRequest.open_iff, onRequest_final (Or.inr hstatus), hstatus] at h
      simp at h
  | expired =>
      exfalso
      cases write with
      | expired passed told now =>
          simp only [Write.onRequest, updateRow] at h
          split_ifs at h <;> simp [SignatureRequest.open_, hstatus] at h
      | _ => simp [Write.onRequest, updateRow, SignatureRequest.open_, hstatus] at h

/-- What clears the links closes the envelope. -/
theorem onRequest_of_clearing {w : Write}
    (hw : (∃ passed now, w = .voided passed now) ∨ ∃ passed told now, w = .expired passed told now)
    (s : SignatureRequest) : (w.onRequest s).open_ = false := by
  rcases hw with ⟨passed, now, rfl⟩ | ⟨passed, told, now, rfl⟩
  · cases hstatus : s.status <;>
      simp [Write.onRequest, updateRow, SignatureRequest.open_, hstatus]
  · cases hstatus : s.status <;>
      simp only [Write.onRequest, updateRow, SignatureRequest.open_, hstatus] <;> split_ifs <;> simp_all

/-! ## All rows -/

theorem write_recipients (w : Write) (db : Db) :
    (db.write w).recipients = [] ∧ w = .deleted ∨
      (db.write w).recipients = db.recipients.map w.onRecipient ∧ w ≠ .deleted := by
  cases w <;> simp [Db.write]

theorem exists_of_mem_write {w : Write} {db : Db} {r' : Recipient}
    (h : r' ∈ (db.write w).recipients) : ∃ r ∈ db.recipients, r' = w.onRecipient r := by
  rcases write_recipients w db with ⟨hnil, -⟩ | ⟨hmap, -⟩
  · rw [hnil] at h
    cases h
  · rw [hmap] at h
    obtain ⟨r, hr, rfl⟩ := List.mem_map.mp h
    exact ⟨r, hr, rfl⟩

/-- A link that is stored after a transaction was stored before, or the transaction stores it. -/
theorem stored_of_write {w : Write} {db : Db} {r' : Recipient} (h : r' ∈ (db.write w).recipients) {t : Nat}
    (ht : r'.signingTokenHash = some (.sha256 t)) :
    (∃ r ∈ db.recipients, r.signingTokenHash = some (.sha256 t)) ∨ (r'.id, t) ∈ w.links := by
  obtain ⟨r, hr, rfl⟩ := exists_of_mem_write h
  rcases onRecipient_hash w r with hsame | hnone | ⟨token, hlink, hnew⟩
  · exact Or.inl ⟨r, hr, hsame.symm.trans ht⟩
  · rw [hnone] at ht
    cases ht
  · rw [hnew] at ht
    obtain rfl := TokenHash.sha256.inj (Option.some.inj ht)
    rw [onRecipient_id]
    exact Or.inr hlink

theorem mem_write {w : Write} {db : Db} {r : Recipient} (hw : w ≠ .deleted)
    (h : r ∈ db.recipients) : w.onRecipient r ∈ (db.write w).recipients := by
  rcases write_recipients w db with ⟨-, hdel⟩ | ⟨hmap, -⟩
  · exact absurd hdel hw
  · rw [hmap]
    exact List.mem_map_of_mem h

theorem exists_of_write_request {w : Write} {db : Db} {s' : SignatureRequest}
    (h : (db.write w).request = some s') : ∃ s, db.request = some s ∧ s' = w.onRequest s := by
  cases w with
  | deleted => cases h
  | _ =>
      obtain ⟨s, hs, rfl⟩ := Option.map_eq_some_iff.mp h
      exact ⟨s, hs, rfl⟩

theorem write_request {w : Write} {db : Db} {s : SignatureRequest} (hw : w ≠ .deleted)
    (h : db.request = some s) : (db.write w).request = some (w.onRequest s) := by
  cases w with
  | deleted => exact absurd rfl hw
  | _ => simp [Db.write, h]

/-- No transaction adds a row or gives one a new identity. -/
theorem write_ids {w : Write} {db : Db} (h : (db.recipients.map Recipient.id).Nodup) :
    ((db.write w).recipients.map Recipient.id).Nodup := by
  rcases write_recipients w db with ⟨hnil, -⟩ | ⟨hmap, -⟩
  · rw [hnil]
    exact List.nodup_nil
  · rw [hmap, List.map_map]
    simpa [Function.comp_def] using h

end ESignSoft.Envelope
