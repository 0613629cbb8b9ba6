import ESignSoft.Envelope.VoidFinal

/-!
# What a completed envelope rests on

An envelope is completed on one reading of its rows, in a transaction of its own.  What that transaction
found, that every signer has signed, still holds of the rows as long as no resend writes the row of
somebody who has completed.

* `Prepares.direct` — on an envelope that was sent, nobody uses a link of the envelope itself;
* `finishedOutline` — a completed envelope has a completed row, with an image, for every signer.
-/

namespace ESignSoft.Envelope

open ESignSoft.Lib.JsText ESignSoft.Lib.Table ESignSoft.Lib.Interleaving
open ESignSoft.Contracts ESignSoft.Signing

/-! ## Every run -/

/-- What holds of every state of every run. -/
structure Sound (s : System World Proc) : Prop where
  roles : Holds (fun w : World => Roles w.db) (fun w _ l => ProcRoles w l) (fun _ _ => True) s
  tokens : Holds Issued (fun w _ l => InHand w l) Unseen s

theorem sound_step {cfg : Config} (s : System World Proc) (l : Label Choice Event)
    (s' : System World Proc) (hs : Sound s) (hstep : (service cfg).step s l = some s') : Sound s' where
  roles := (rolesOutline cfg fun _ _ => True).holds_step s l s' hs.roles trivial hstep
  tokens := (issuedOutline cfg fun _ _ => True).holds_step s l s' hs.tokens trivial hstep

theorem sound_start {input : SendRequest} {s : Sending} (h : NewEnvelope input s.minted s.db)
    (now : Int) : Sound (start s now) :=
  ⟨(guarded_start h now).roles, (guarded_start h now).tokens⟩

/-- A run with what holds of every state added to its side condition. -/
theorem reaches_sound {cfg : Config} {ok : System World Proc → Label Choice Event → Prop}
    {s s' : System World Proc} (h : Reaches (service cfg) ok s s') (hs : Sound s) :
    Reaches (service cfg) (fun s l => ok s l ∧ Sound s) s s' :=
  Reaches.strengthen (fun a l b ha _ hstep => sound_step a l b ha hstep) h hs

/-! ## The envelope's own link -/

/-- The transaction of a link from before routing. -/
def Write.legacy : Write → Bool
  | .viewedLegacy .. | .consentedLegacy .. | .claimedLegacy .. => true
  | _ => false

/-- Only what was loaded without a recipient is written that way. -/
theorem Prepares.direct {cfg : Config} {w : World} {l : Proc} {write : Write} {k : Kont} {minted : Nat}
    (h : Prepares cfg w l write k minted)
    (hl : ∀ token visit req, l = .loaded token visit req → req.recipientId ≠ none) :
    write.legacy = false := by
  cases h with
  | viewed token ip ua req a =>
      obtain ⟨id, hid⟩ := Option.ne_none_iff_exists'.mp (hl _ _ _ rfl)
      simp only [LoadedRequest.viewWrite, hid]
      rfl
  | consented token req a hconsent =>
      obtain ⟨id, hid⟩ := Option.ne_none_iff_exists'.mp (hl _ _ _ rfl)
      simp only [LoadedRequest.consentWrite, hid]
      rfl
  | claimed token dto ip ua req data hdata =>
      obtain ⟨id, hid⟩ := Option.ne_none_iff_exists'.mp (hl _ _ _ rfl)
      simp only [LoadedRequest.claimWrite, hid]
      rfl
  | _ => rfl

/-! ## Completion -/

/-- The update of a resend matches the row of somebody who has completed. -/
def reopens (db : Db) (write : Write) : Bool :=
  db.recipients.any fun r => r.status == .completed &&
    match write with
    | .resent id _ _ => id == r.id
    | _ => false

/-- The step commits no such update. -/
def sparesSigned (s : System World Proc) (l : Label Choice Event) : Bool :=
  match l with
  | .proc p .next =>
      match s.procs p with
      | .writing write _ => !reopens s.shared.db write
      | _ => true
  | _ => true

theorem sparesSigned_commit {s : System World Proc} {p : Nat} {write : Write} {k : Kont}
    (hl : s.procs p = .writing write k) (h : sparesSigned s (.proc p .next) = true) :
    reopens s.shared.db write = false := by
  simpa only [sparesSigned, hl, Bool.not_eq_true'] using h

/-- Who sets an envelope to completed. -/
theorem onRequest_completed {write : Write} {row : SignatureRequest}
    (h : (write.onRequest row).status = .completed) :
    row.status = .completed ∨ (∃ now, write = .completed now) ∨
      ∃ hash data, write = .claimedLegacy hash data := by
  cases write with
  | completed now => exact Or.inr (Or.inl ⟨now, rfl⟩)
  | claimedLegacy hash data => exact Or.inr (Or.inr ⟨hash, data, rfl⟩)
  | expired passed told now =>
      refine Or.inl ?_
      simp only [Write.onRequest, updateRow] at h
      split_ifs at h <;> exact h
  | _ =>
      refine Or.inl ?_
      simp only [Write.onRequest, updateRow] at h
      first
        | exact h
        | split_ifs at h <;> exact h

/-- Without a resend over it, the completed row of a signer stays completed. -/
theorem onRecipient_stays_completed {db : Db} {write : Write} (hroles : Roles db)
    (hwrite : WriteRoles db write) (hspares : reopens db write = false) {r : Recipient}
    (hr : r ∈ db.recipients) (hcompleted : r.status = .completed) :
    (write.onRecipient r).status = .completed := by
  have hclosed : ¬ r.open_ = true := by
    rw [Recipient.open_iff, hcompleted]
    simp
  have hspec := onRecipient_spec write r
  generalize write.onRecipient r = r' at hspec ⊢
  cases hspec with
  | same => exact hcompleted
  | viewed now ip ua hw hsent =>
      rw [hcompleted] at hsent
      cases hsent
  | consented now hw hopen hnone => exact absurd hopen hclosed
  | claimed hash data hw hhash hopen => rfl
  | activated group now hw hcc =>
      have hrole : r.role = .cc := by
        refine hwrite.activates r.id ?_ r hr rfl
        rw [hw]
        exact mem_activates_handedOff.mpr hcc
      exact absurd hcompleted (hroles.cc r hr hrole).2
  | invited group now token hw hsigner hpending =>
      rw [hcompleted] at hpending
      cases hpending
  | cleared hw hleft => exact absurd hcompleted hleft
  | resent token now hw =>
      -- The one write that reopens a completed row, which these runs are spared.
      have hhit : reopens db write = true :=
        List.any_eq_true.mpr ⟨r, hr, by simp [hw, hcompleted]⟩
      rw [hspares] at hhit
      cases hhit
  | reminded token now hw => exact hcompleted

theorem AllSigned.write {db : Db} {write : Write} (h : AllSigned db.recipients) (hroles : Roles db)
    (hwrite : WriteRoles db write) (hspares : reopens db write = false) :
    AllSigned (db.write write).recipients := by
  intro r' hr' hrole
  obtain ⟨r, hr, rfl⟩ := exists_of_mem_write hr'
  rw [onRecipient_role] at hrole
  exact onRecipient_stays_completed hroles hwrite hspares hr (h r hr hrole)

/-- A completed envelope has a completed row for every signer, and a completed row has an image. -/
structure Finished (db : Db) : Prop where
  signed : ∀ row, db.request = some row → row.status = .completed → AllSigned db.recipients
  image : ∀ r ∈ db.recipients, r.status = .completed → r.signatureImageKey.isSome = true

structure Concluding (w : World) (l : Proc) : Prop where
  /-- What the decision to complete the envelope found. -/
  completed : ∀ now k, l.pending = some (.completed now, k) → AllSigned w.db.recipients
  direct : ∀ write k, l.pending = some (write, k) → write.legacy = false
  loaded : ∀ token visit req, l = .loaded token visit req → req.recipientId ≠ none

theorem onRecipient_image (write : Write) {r : Recipient}
    (hold : r.status = .completed → r.signatureImageKey.isSome = true)
    (h : (write.onRecipient r).status = .completed) :
    (write.onRecipient r).signatureImageKey.isSome = true := by
  have hspec := onRecipient_spec write r
  generalize write.onRecipient r = r' at h hspec ⊢
  cases hspec with
  | same => exact hold h
  | viewed now ip ua hw hsent => cases h
  | consented now hw hopen hnone => exact hold h
  | claimed hash data hw hhash hopen => rfl
  | activated group now hw hcc => cases h
  | invited group now token hw hsigner hpending => cases h
  | cleared hw hleft => exact hold h
  | resent token now hw => cases h
  | reminded token now hw => exact hold h

theorem Finished.write {db : Db} {write : Write} (h : Finished db) (hroles : Roles db)
    (hwrite : WriteRoles db write) (hspares : reopens db write = false)
    (hdirect : write.legacy = false)
    (hcompleted : ∀ now, write = .completed now → AllSigned db.recipients) :
    Finished (db.write write) where
  signed := by
    intro row' hrow' hstatus
    obtain ⟨row, hrow, rfl⟩ := exists_of_write_request hrow'
    have hall : AllSigned db.recipients := by
      rcases onRequest_completed hstatus with hold | ⟨now, rfl⟩ | ⟨hash, data, rfl⟩
      · exact h.signed row hrow hold
      · exact hcompleted now rfl
      · cases hdirect
    exact hall.write hroles hwrite hspares
  image := by
    intro r' hr' hstatus
    obtain ⟨r, hr, rfl⟩ := exists_of_mem_write hr'
    exact onRecipient_image write (h.image r hr) hstatus

theorem Concluding.same {w w' : World} {l : Proc} (h : Concluding w l) (hsame : SameRows w w') :
    Concluding w' l where
  completed now k hl := by
    rw [hsame.db]
    exact h.completed now k hl
  direct := h.direct
  loaded := h.loaded

theorem Concluding.ready {cfg : Config} {w w' : World} {l l' : Proc} (hw : Issued w)
    (h : Concluding w l) (hready : Readies cfg w l w' l') : Concluding w' l' where
  completed now k hl := by
    rw [hready.same.db]
    have hprepares := hready.pending _ k hl
    generalize hwrite : Write.completed now = write at hprepares
    generalize w'.minted = minted at hprepares
    cases hprepares with
    -- The decision was made on these rows: nothing is written between it and this step.
    | completed documentName now' hdecision => exact ((advanceEnvelope_complete_iff w.db).mp hdecision).2
    | viewed token ip ua req a =>
        unfold LoadedRequest.viewWrite at hwrite
        split at hwrite <;> cases hwrite
    | consented token req a hconsent =>
        unfold LoadedRequest.consentWrite at hwrite
        split at hwrite <;> cases hwrite
    | claimed token dto ip ua req data hdata =>
        unfold LoadedRequest.claimWrite at hwrite
        split at hwrite <;> cases hwrite
    | _ => cases hwrite
  direct write k hl := (hready.pending write k hl).direct h.loaded
  loaded token visit req hl := by
    cases hready.loaded token visit req hl with
    | recipient row rc hrc hhash hopen => exact Option.some_ne_none _
    | legacy row hrow hhash =>
        rw [hw.legacy row hrow] at hhash
        cases hhash

theorem finishedOutline (cfg : Config) :
    ProofOutline (service cfg) (fun s l => sparesSigned s l = true ∧ Sound s)
      (fun w => Finished w.db) (fun w _ l => Concluding w l) (fun _ _ => True) where
  act := by
    rintro s p c sh l hs ⟨hspares, hsound⟩ hact
    rcases act_spec (p := p) hact with ⟨write, k, hl, rfl, rfl, rfl⟩ | hready
    · have hown := hs.proc p
      rw [hl] at hown
      have hwrite := (hsound.roles.proc p).pending write k (by rw [hl]; rfl)
      have hkeeps := sparesSigned_commit hl hspares
      refine ⟨hs.shared.write hsound.roles.shared hwrite hkeeps (hown.direct write k rfl)
        (fun now hnow => hown.completed now k (by rw [hnow]; rfl)), ?_, fun q _ => ?_,
        fun _ _ => ⟨trivial, trivial⟩⟩
      · constructor
        · intro now k' hk'
          rw [Kont.pending_after] at hk'
          cases hk'
        · intro write' k' hk'
          rw [Kont.pending_after] at hk'
          cases hk'
        · intro token visit req hreq
          exact absurd hreq (k.after_ne_loaded write _ token visit req)
      · -- Another decision to complete outlives the write: completed rows stay completed.
        refine ⟨fun now k' hk' => ?_, (hs.proc q).direct, (hs.proc q).loaded⟩
        exact ((hs.proc q).completed now k' hk').write hsound.roles.shared hwrite hkeeps
    · refine ⟨?_, (hs.proc p).ready hsound.tokens.shared hready,
        fun q _ => (hs.proc q).same hready.same, fun _ _ => ⟨trivial, trivial⟩⟩
      rw [hready.same.db]
      exact hs.shared
  env := by
    rintro s e sh hs - henv
    have hsame := env_spec henv
    refine ⟨?_, fun q => (hs.proc q).same hsame⟩
    rw [hsame.db]
    exact hs.shared

theorem finishedHolds_start {input : SendRequest} {s : Sending} (h : NewEnvelope input s.minted s.db)
    (now : Int) :
    Holds (fun w : World => Finished w.db) (fun w _ l => Concluding w l) (fun _ _ => True)
      (start s now) where
  shared :=
    { signed := by
        intro row hrow hcompleted
        obtain ⟨row', hrow', -, hsent, -⟩ := h.request
        obtain rfl := Option.some.inj (hrow'.symm.trans hrow)
        rw [hsent] at hcompleted
        cases hcompleted
      image := fun r hr hcompleted => absurd hcompleted (h.not_completed hr) }
  proc p := by
    simp only [start]
    split <;> exact ⟨by simp [Proc.pending], by simp [Proc.pending], by simp⟩
  pair _ _ _ := trivial

end ESignSoft.Envelope
