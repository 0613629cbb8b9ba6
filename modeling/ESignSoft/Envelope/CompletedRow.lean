import ESignSoft.Envelope.Roles

/-!
# Whether a completed recipient is final

`resend` and the reminder sweep read that a recipient has not completed and then update the row by its
id (and reminder count) alone.  A claim that commits in between is overwritten: the row goes back to
`sent`, or keeps its status and loses the hash the signer's copy is fetched with.

* `completed_row_final` — in every run in which no such update hits a completed row, what a completed
  row records never changes;
* `completed_row_reset` — a run in which one does.
-/

namespace ESignSoft.Envelope

open ESignSoft.Lib.JsText ESignSoft.Lib.Table ESignSoft.Lib.Interleaving
open ESignSoft.Contracts ESignSoft.Signing

/-- The row still says the same about its signature. -/
structure SameEvidence (r r' : Recipient) : Prop where
  id : r'.id = r.id
  status : r'.status = r.status
  completedAt : r'.completedAt = r.completedAt
  signatureImageKey : r'.signatureImageKey = r.signatureImageKey
  fieldValues : r'.fieldValues = r.fieldValues
  signerIp : r'.signerIp = r.signerIp
  signingTokenHash : r'.signingTokenHash = r.signingTokenHash

theorem SameEvidence.refl (r : Recipient) : SameEvidence r r := ⟨rfl, rfl, rfl, rfl, rfl, rfl, rfl⟩

theorem SameEvidence.trans {a b c : Recipient} (hab : SameEvidence a b) (hbc : SameEvidence b c) :
    SameEvidence a c where
  id := hbc.id.trans hab.id
  status := hbc.status.trans hab.status
  completedAt := hbc.completedAt.trans hab.completedAt
  signatureImageKey := hbc.signatureImageKey.trans hab.signatureImageKey
  fieldValues := hbc.fieldValues.trans hab.fieldValues
  signerIp := hbc.signerIp.trans hab.signerIp
  signingTokenHash := hbc.signingTokenHash.trans hab.signingTokenHash

/-- The update of a resend or of a reminder matches the row of somebody who has completed. -/
def hitsCompleted (db : Db) (write : Write) : Bool :=
  db.recipients.any fun r => r.status == .completed &&
    match write with
    | .resent id _ _ => id == r.id
    | .reminded id _ reminderCount _ => id == r.id && reminderCount == r.reminderCount
    | _ => false

/-- The step commits no such update and does not roll the send back. -/
def sparesCompleted (s : System World Proc) (l : Label Choice Event) : Bool :=
  match l with
  | .proc p .next =>
      match s.procs p with
      | .writing .deleted _ => false
      | .writing write _ => !hitsCompleted s.shared.db write
      | _ => true
  | _ => true

/-- Every other transaction leaves a completed row as it is. -/
theorem sameEvidence_write {db : Db} {write : Write} (hroles : Roles db) (hwrite : WriteRoles db write)
    (hspares : hitsCompleted db write = false) {r : Recipient} (hr : r ∈ db.recipients)
    (hcompleted : r.status = .completed) : SameEvidence r (write.onRecipient r) := by
  have hclosed : ¬ r.open_ = true := by
    rw [Recipient.open_iff, hcompleted]
    simp
  have hspec := onRecipient_spec write r
  generalize write.onRecipient r = r' at hspec ⊢
  cases hspec with
  | same => exact SameEvidence.refl r
  | viewed now ip ua hw hsent =>
      rw [hcompleted] at hsent
      cases hsent
  | consented now hw hopen hnone => exact absurd hopen hclosed
  | claimed hash data hw hhash hopen => exact absurd hopen hclosed
  | activated group now hw hcc =>
      -- Only a `cc` is activated, and no `cc` ever completes.
      have hrole : r.role = .cc := by
        refine hwrite.activates r.id ?_ r hr rfl
        rw [hw]
        exact mem_activates_handedOff.mpr hcc
      exact absurd hcompleted (hroles.cc r hr hrole).2
  | invited group now token hw hsigner hpending =>
      rw [hcompleted] at hpending
      cases hpending
  | cleared hw hleft => exact absurd hcompleted hleft
  | resent token now hw =>
      have hhit : hitsCompleted db write = true :=
        List.any_eq_true.mpr ⟨r, hr, by simp [hw, hcompleted]⟩
      rw [hspares] at hhit
      cases hhit
  | reminded token now hw =>
      have hhit : hitsCompleted db write = true :=
        List.any_eq_true.mpr ⟨r, hr, by simp [hw, hcompleted]⟩
      rw [hspares] at hhit
      cases hhit

theorem sparesCompleted_commit {s : System World Proc} {p : Nat} {write : Write} {k : Kont}
    (hl : s.procs p = .writing write k) (h : sparesCompleted s (.proc p .next) = true) :
    hitsCompleted s.shared.db write = false ∧ write ≠ .deleted := by
  simp only [sparesCompleted, hl] at h
  cases write with
  | deleted => cases h
  | _ => simpa using h

/-- The completed rows of the first state are there in the second, unchanged. -/
def KeepsCompleted (s s' : System World Proc) : Prop :=
  ∀ r ∈ s.shared.db.recipients, r.status = .completed →
    ∃ r' ∈ s'.shared.db.recipients, SameEvidence r r'

theorem keepsCompleted_step {cfg : Config} {s s' : System World Proc} {l : Label Choice Event}
    (hholds : Holds (fun w : World => Roles w.db) (fun w _ l => ProcRoles w l) (fun _ _ => True) s)
    (hspares : sparesCompleted s l = true) (hstep : (service cfg).step s l = some s') :
    KeepsCompleted s s' := by
  intro r hr hcompleted
  rcases step_rows hstep with ⟨p, write, k, rfl, hl, hcommit⟩ | hsame
  · obtain ⟨hnot, hdeleted⟩ := sparesCompleted_commit hl hspares
    have hpending : (s.procs p).pending = some (write, k) := by rw [hl]; rfl
    rw [hcommit]
    exact ⟨_, mem_write hdeleted hr, sameEvidence_write hholds.shared
      ((hholds.proc p).pending write k hpending) hnot hr hcompleted⟩
  · refine ⟨r, ?_, SameEvidence.refl r⟩
    rw [hsame.db]
    exact hr

/-- **A completed recipient is final** in every run in which no update of a resend or a reminder hits
a completed row. -/
theorem completed_row_final {cfg : Config} {template : Option Template} {input : SendRequest}
    {senderName : Option JsString} {now : Int} {sending : Sending}
    (hinput : SendRequestSchema cfg.platform input = true)
    (hsend : send cfg template input senderName now = .ok sending) {s s' : System World Proc}
    (hs : Reaches (service cfg) (fun _ _ => True) (start sending now) s)
    (hs' : Reaches (service cfg) (fun s l => sparesCompleted s l = true) s s') :
    ∀ r ∈ s.shared.db.recipients, r.status = .completed →
      ∃ r' ∈ s'.shared.db.recipients, SameEvidence r r' := by
  have hstart := rolesHolds_start (send_spec hinput hsend) now
  have hholds := (rolesOutline cfg _).holds_of_reaches hs hstart
  have hrun := Reaches.strengthen (rolesOutline cfg _).holds_step hs' hholds
  refine Reaches.relates (R := KeepsCompleted) (fun t r hr _ => ⟨r, hr, SameEvidence.refl r⟩) ?_ ?_ hrun
  · intro a b c hab hbc r hr hcompleted
    obtain ⟨r', hr', hsame⟩ := hab r hr hcompleted
    obtain ⟨r'', hr'', hsame'⟩ := hbc r' hr' (by rw [hsame.status, hcompleted])
    exact ⟨r'', hr'', hsame.trans hsame'⟩
  · intro a l b hok hstep
    exact keepsCompleted_step hok.2 hok.1 hstep

/-- One of two signers completes; then the other's link is sent again and the envelope cancelled. -/
theorem completed_row_final_voided :
    let input := exampleInput .parallel [exampleRecipient "a" .signer 1, exampleRecipient "b" .signer 1]
    ∃ s s', replay exampleConfig exampleTemplate input 0 (exampleConsent 1 0 ++ exampleClaim 2 0) =
        some s ∧
      Reaches (service exampleConfig) (fun s l => sparesCompleted s l = true) s s' ∧
      (s'.shared.db.request.map SignatureRequest.status) = some .voided ∧
      ∃ r ∈ s.shared.db.recipients, r.status = .completed ∧
        ∃ r' ∈ s'.shared.db.recipients, SameEvidence r r' := by
  intro input
  let later : List (Label Choice Event) :=
    .env (.clock 90000) :: exampleCall 3 (.resend 1) 3 ++ exampleCall 4 (.void none) 3
  have hrun : ((replay exampleConfig exampleTemplate input 0
      (exampleConsent 1 0 ++ exampleClaim 2 0)).bind fun s =>
        ((service exampleConfig).runIf sparesCompleted s later).map fun s' =>
          (s'.shared.db.request.map SignatureRequest.status,
            s.shared.db.recipients.any fun r => r.status == .completed)) =
      some (some .voided, true) := by
    decide +kernel
  obtain ⟨s, hs, hrest⟩ := Option.bind_eq_some_iff.mp hrun
  obtain ⟨s', hs', heq⟩ := Option.map_eq_some_iff.mp hrest
  obtain ⟨hvoided, hany⟩ := Prod.mk.inj heq
  obtain ⟨r, hr, hcompleted⟩ := List.any_eq_true.mp hany
  obtain ⟨sending, hsend, hreaches⟩ := replay_spec hs
  have hlater := Reaches.of_runIf hs'
  have hinput : SendRequestSchema exampleConfig.platform input = true := by decide +kernel
  exact ⟨s, s', hs, hlater, hvoided, r, hr, by simpa using hcompleted,
    completed_row_final hinput hsend hreaches hlater r hr (by simpa using hcompleted)⟩

/-! ## The race -/

/-- A signer asked for the link again, and signs with the old one before the new one is stored. -/
def resendRace : List (Label Choice Event) :=
  exampleConsent 1 0 ++ .env (.clock 90000) :: exampleCall 2 (.resend 0) 2 ++ exampleClaim 3 0

theorem completed_row_reset :
    ∃ s s', replay exampleConfig exampleTemplate
        (exampleInput .parallel [exampleRecipient "a" .signer 1]) 0 resendRace = some s ∧
      (service exampleConfig).run s [.proc 2 .next] = some s' ∧
      (s.shared.db.recipients.map fun r => (r.id, r.status, r.signingTokenHash)) =
        [(0, .completed, some (.sha256 0))] ∧
      (s'.shared.db.recipients.map fun r => (r.id, r.status, r.signingTokenHash)) =
        [(0, .sent, some (.sha256 1))] := by
  have hrun : ((replay exampleConfig exampleTemplate
      (exampleInput .parallel [exampleRecipient "a" .signer 1]) 0 resendRace).bind fun s =>
        ((service exampleConfig).run s [.proc 2 .next]).map fun s' =>
          [s, s'].map fun s =>
            s.shared.db.recipients.map fun r => (r.id, r.status, r.signingTokenHash)) =
      some [[(0, .completed, some (.sha256 0))], [(0, .sent, some (.sha256 1))]] := by
    decide +kernel
  obtain ⟨s, hs, hrest⟩ := Option.bind_eq_some_iff.mp hrun
  obtain ⟨s', hs', heq⟩ := Option.map_eq_some_iff.mp hrest
  simp only [List.map_cons, List.map_nil, List.cons.injEq, and_true] at heq
  exact ⟨s, s', hs, hs', heq.1, heq.2⟩

end ESignSoft.Envelope
