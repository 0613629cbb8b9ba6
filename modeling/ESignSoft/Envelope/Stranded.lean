import ESignSoft.Envelope.Signatures

/-!
# Whether a finished envelope is always completed

The last signature and the completion of the envelope are two transactions.  Between them the process
may die, and nothing looks for an envelope whose signers are all done while its own row is still open;
the expiry sweep may retire it there; and a claim only looks at the recipient's row, so the last one
may commit on an envelope that expired meanwhile.

* `Strands` — these three steps;
* `no_finished_envelope_stranded` — without them every finished envelope is completed;
* `finished_envelope_stranded` — a run with the first of them.
-/

namespace ESignSoft.Envelope

open ESignSoft.Lib.JsText ESignSoft.Lib.Table ESignSoft.Lib.Interleaving
open ESignSoft.Contracts ESignSoft.Signing

/-- The process is about to find the envelope complete, or has found it so. -/
def Proc.concluding : Proc → Bool
  | .advancing _ _ => true
  | .writing (.completed _) _ => true
  | _ => false

theorem Proc.submitting_of_concluding {l : Proc} (h : l.concluding = true) : l.submitting = true := by
  cases l with
  | advancing documentName now => rfl
  | writing write k =>
      cases write with
      | completed now => rfl
      | _ => cases h
  | _ => cases h

/-- The steps that leave a finished envelope with nobody to complete it. -/
inductive Strands (s : System World Proc) : Label Choice Event → Prop
  /-- The only process that would complete the envelope dies. -/
  | crash (p : Nat) (row : SignatureRequest) (hrow : s.shared.db.request = some row)
      (hopen : row.open_ = true) (hsigned : AllSigned s.shared.db.recipients)
      (hp : (s.procs p).concluding = true) (honly : ∀ q, q ≠ p → (s.procs q).concluding = false) :
      Strands s (.proc p .crash)
  /-- The expiry sweep retires an open envelope that everybody has signed. -/
  | expiry (p : Nat) (row : SignatureRequest) (passed : List Nat) (told : Bool) (now : Int) (k : Kont)
      (hl : s.procs p = .writing (.expired passed told now) k) (hrow : s.shared.db.request = some row)
      (hopen : row.open_ = true) (hsigned : AllSigned s.shared.db.recipients) :
      Strands s (.proc p .next)
  /-- The last claim commits on an expired envelope. -/
  | lateClaim (p : Nat) (row : SignatureRequest) (id : Nat) (hash : TokenHash) (data : ClaimData)
      (k : Kont) (hl : s.procs p = .writing (.claimed id hash data) k)
      (hrow : s.shared.db.request = some row) (hexpired : row.status = .expired)
      (hcount : (Write.claimed id hash data).count s.shared.db = 1)
      (hlast : ∀ q ∈ s.shared.db.recipients, q.role = .signer → q.id ≠ id → q.status = .completed) :
      Strands s (.proc p .next)

/-- A finished envelope is completed or voided, or some process is about to complete it. -/
def Attended (s : System World Proc) : Prop :=
  ∀ row, s.shared.db.request = some row → AllSigned s.shared.db.recipients →
    row.status = .completed ∨ row.status = .voided ∨
      (row.open_ = true ∧ ∃ p, (s.procs p).concluding = true)

/-! ## Steps that do not commit -/

/-- Other processes stay as they are when one moves. -/
private theorem attended_move {s : System World Proc} {p : Nat} {sh : World} {l' : Proc}
    (h : Attended s) (hdb : sh.db = s.shared.db)
    (hp : ∀ row, s.shared.db.request = some row → row.open_ = true →
      AllSigned s.shared.db.recipients → (s.procs p).concluding = true →
      l'.concluding = true ∨ ∃ q, q ≠ p ∧ (s.procs q).concluding = true) :
    Attended ⟨sh, Function.update s.procs p l'⟩ := by
  intro row hrow hsigned
  simp only [hdb] at hrow hsigned
  rcases h row hrow hsigned with hcompleted | hvoided | ⟨hopen, q, hq⟩
  · exact Or.inl hcompleted
  · exact Or.inr (Or.inl hvoided)
  · refine Or.inr (Or.inr ⟨hopen, ?_⟩)
    by_cases hqp : q = p
    · subst hqp
      rcases hp row hrow hopen hsigned hq with hl' | ⟨r, hr, hrc⟩
      · exact ⟨q, by simpa using hl'⟩
      · exact ⟨r, by simpa [hr] using hrc⟩
    · exact ⟨q, by simpa [hqp] using hq⟩

/-- Once everybody has signed, the decision of a concluding process is to complete. -/
private theorem concluding_next {cfg : Config} {w w' : World} {l l' : Proc} {row : SignatureRequest}
    (hnext : Next cfg w l w' l') (hl : ∀ write k, l ≠ .writing write k)
    (hrow : w.db.request = some row) (hsigned : AllSigned w.db.recipients)
    (hconcluding : l.concluding = true) : l'.concluding = true := by
  have hcomplete : advanceEnvelope w.db = .complete :=
    (advanceEnvelope_complete_iff w.db).mpr ⟨by simp [hrow], hsigned⟩
  cases hnext with
  | stop l a hend =>
      cases l with
      | advancing documentName now =>
          rw [show advanceEnvelope w.db = .nothing from hend] at hcomplete
          cases hcomplete
      | writing write k => exact absurd rfl (hl write k)
      | _ => cases hconcluding
  | handOff documentName now group hgroup =>
      rw [hgroup] at hcomplete
      cases hcomplete
  | complete documentName now h => rfl
  | commit write k => exact absurd rfl (hl write k)
  | _ => cases hconcluding

/-! ## Commits -/

/-- Only a claim makes an envelope finished. -/
theorem allSigned_of_write {db : Db} {write : Write}
    (hdeleted : write ≠ .deleted) (h : AllSigned (db.write write).recipients) :
    AllSigned db.recipients ∨ ∃ r ∈ db.recipients, ∃ hash data, write = .claimed r.id hash data ∧
      r.signingTokenHash = some hash ∧ r.open_ = true := by
  by_cases hclaim : ∃ r ∈ db.recipients, ∃ hash data, write = .claimed r.id hash data ∧
      r.signingTokenHash = some hash ∧ r.open_ = true
  · exact Or.inr hclaim
  · refine Or.inl fun r hr hrole => ?_
    have hcompleted := h _ (mem_write hdeleted hr) (by rw [onRecipient_role, hrole])
    rcases onRecipient_completed hcompleted with hold | ⟨hash, data, hw, hhash, hopen⟩
    · exact hold
    · exact absurd ⟨r, hr, hash, data, hw, hhash, hopen⟩ hclaim

/-- The last claim: its own process goes on to complete the envelope, unless that has expired. -/
private theorem attended_lastClaim {s : System World Proc} {p : Nat} {hash : TokenHash} {data : ClaimData}
    {k : Kont} {r : Recipient} {row : SignatureRequest}
    (hroles : Holds (fun w : World => Roles w.db) (fun w _ l => ProcRoles w l) (fun _ _ => True) s)
    (hl : s.procs p = .writing (.claimed r.id hash data) k) (hok : ¬ Strands s (.proc p .next))
    (hr : r ∈ s.shared.db.recipients) (hhash : r.signingTokenHash = some hash) (hopen : r.open_ = true)
    (hrow : s.shared.db.request = some row) (hclosed : ¬ (row.status = .completed ∨ row.status = .voided))
    (hsigned : AllSigned (s.shared.db.write (.claimed r.id hash data)).recipients) :
    row.open_ = true ∧ (k.after (.claimed r.id hash data) s.shared.db).concluding = true := by
  obtain ⟨token, documentName, now, rfl⟩ := (hroles.proc p).claim r.id hash data k (by rw [hl]; rfl)
  have hcount := count_claimed hroles.shared.ids hr hhash hopen data
  -- Everybody else had signed before.
  have hlast : ∀ q ∈ s.shared.db.recipients, q.role = .signer → q.id ≠ r.id →
      q.status = .completed := by
    intro q hq hrole hne
    have hq' := hsigned _ (mem_write (by simp) hq) (by rw [onRecipient_role, hrole])
    rcases onRecipient_completed hq' with hold | ⟨_, _, hw, -⟩
    · exact hold
    · exact absurd (Write.claimed.inj hw).1.symm hne
  refine ⟨?_, by simp [Kont.after, hcount, Proc.concluding]⟩
  rw [SignatureRequest.open_iff]
  cases hs : row.status with
  | sent => exact Or.inl rfl
  | viewed => exact Or.inr rfl
  | completed => exact absurd (Or.inl hs) hclosed
  | voided => exact absurd (Or.inr hs) hclosed
  | expired => exact absurd (Strands.lateClaim p row r.id hash data _ hl hrow hs hcount hlast) hok

private theorem attended_commit {s : System World Proc} {p : Nat} {write : Write} {k : Kont}
    (hroles : Holds (fun w : World => Roles w.db) (fun w _ l => ProcRoles w l) (fun _ _ => True) s)
    (h : Attended s) (hl : s.procs p = .writing write k) (hok : ¬ Strands s (.proc p .next)) :
    Attended ⟨s.shared.commit write k, Function.update s.procs p (k.after write s.shared.db)⟩ := by
  intro row' hrow' hsigned'
  have hdeleted : write ≠ .deleted := by
    rintro rfl
    cases hrow'
  obtain ⟨row, hrow, rfl⟩ := exists_of_write_request hrow'
  by_cases hclosed : row.status = .completed ∨ row.status = .voided
  · -- Nothing reopens the envelope.
    rw [onRequest_final hclosed]
    rcases hclosed with hcompleted | hvoided
    · exact Or.inl hcompleted
    · exact Or.inr (Or.inl hvoided)
  · rcases allSigned_of_write hdeleted hsigned' with hsigned | ⟨r, hr, hash, data, rfl, hhash, hopen⟩
    · rcases h row hrow hsigned with hcompleted | hvoided | ⟨hopen, q, hq⟩
      · exact absurd (Or.inl hcompleted) hclosed
      · exact absurd (Or.inr hvoided) hclosed
      · have hnot : ∀ passed told now, write ≠ .expired passed told now := by
          rintro passed told now rfl
          exact hok (Strands.expiry p row passed told now k hl hrow hopen hsigned)
        by_cases hqp : q = p
        · -- The process that would complete the envelope does so now.
          subst hqp
          rw [hl] at hq
          cases write with
          | completed now =>
              refine Or.inl ?_
              simp only [Write.onRequest, updateRow, hopen, if_true]
          | _ => cases hq
        · rcases onRequest_of_open hopen hnot with hopen' | hcompleted | hvoided
          · exact Or.inr (Or.inr ⟨hopen', q, by simpa [hqp] using hq⟩)
          · exact Or.inl hcompleted
          · exact Or.inr (Or.inl hvoided)
    · obtain ⟨hstill, hconcluding⟩ := attended_lastClaim hroles hl hok hr hhash hopen hrow hclosed hsigned'
      exact Or.inr (Or.inr ⟨hstill, p, by simpa using hconcluding⟩)

/-! ## Every run -/

theorem attended_step {cfg : Config} {s s' : System World Proc} {l : Label Choice Event}
    (hroles : Holds (fun w : World => Roles w.db) (fun w _ l => ProcRoles w l) (fun _ _ => True) s)
    (h : Attended s) (hok : ¬ Strands s l) (hstep : (service cfg).step s l = some s') :
    Attended s' := by
  cases l with
  | env e =>
      obtain ⟨sh, henv, rfl⟩ := Program.step_env hstep
      intro row hrow hsigned
      simp only [(env_spec henv).db] at hrow hsigned
      exact h row hrow hsigned
  | proc p c =>
      obtain ⟨sh, l', hact, rfl⟩ := Program.step_proc hstep
      rcases act_cases (p := p) hact with
        ⟨call, rfl, hrest, rfl, rfl⟩ | ⟨rfl, hnext⟩ | ⟨taken, rfl, hfail⟩ | ⟨rfl, -, rfl, rfl⟩
      · refine attended_move h rfl fun row _ _ _ hconcluding => ?_
        generalize s.procs p = l at hrest hconcluding
        cases l <;> cases hrest <;> cases hconcluding
      · by_cases hl : ∀ write k, s.procs p ≠ .writing write k
        · exact attended_move h (hnext.readies hl).same.db fun row hrow _ hsigned hconcluding =>
            Or.inl (concluding_next hnext hl hrow hsigned hconcluding)
        · simp only [ne_eq, not_forall, not_not] at hl
          obtain ⟨write, k, hl⟩ := hl
          rw [hl] at hnext
          cases hnext with
          | stop l a hend => exact hend.elim
          | commit write k => exact attended_commit hroles h hl hok
      · obtain ⟨⟨q, rfl⟩, hcases⟩ := failEnqueue_spec hfail
        refine attended_move h rfl fun row _ _ _ hconcluding => ?_
        rcases hcases with ⟨_, _, _, hl, -⟩ | ⟨hl, -⟩ | ⟨_, _, hl, -⟩ | ⟨_, _, _, hl, -⟩
        all_goals
          rw [hl] at hconcluding
          cases hconcluding
      · refine attended_move h rfl fun row hrow hopen hsigned hconcluding => ?_
        by_contra hnobody
        simp only [not_or, not_exists, not_and, Bool.not_eq_true] at hnobody
        exact hok (Strands.crash p row hrow hopen hsigned hconcluding hnobody.2)

/-- **No finished envelope is stranded** in a run without the three steps: once no submit is under way,
an envelope that every signer has signed and nobody voided is completed. -/
theorem no_finished_envelope_stranded {cfg : Config} {template : Option Template} {input : SendRequest}
    {senderName : Option JsString} {now : Int} {sending : Sending}
    (hinput : SendRequestSchema cfg.platform input = true)
    (hsend : send cfg template input senderName now = .ok sending) {s : System World Proc}
    (hs : Reaches (service cfg) (fun s l => ¬ Strands s l) (start sending now) s)
    (hquiet : ∀ p, (s.procs p).submitting = false) :
    ∀ row, s.shared.db.request = some row → AllSigned s.shared.db.recipients →
      row.status ≠ .voided → row.status = .completed := by
  have hnew := send_spec hinput hsend
  have hstart : Attended (start sending now) := by
    intro row _ hsigned
    obtain ⟨r, hr, hrole⟩ := hnew.signer
    exact absurd (hsigned r hr hrole) (hnew.not_completed hr)
  have hrun := Reaches.strengthen (rolesOutline cfg _).holds_step hs (rolesHolds_start hnew now)
  have hattended : Attended s :=
    Reaches.invariant (fun a l b ha hok hstep => attended_step hok.2 ha hok.1 hstep) hrun hstart
  intro row hrow hsigned hvoided
  rcases hattended row hrow hsigned with hcompleted | hv | ⟨-, p, hp⟩
  · exact hcompleted
  · exact absurd hv hvoided
  · have hnot := hquiet p
    rw [Proc.submitting_of_concluding hp] at hnot
    cases hnot

/-! ## Two runs -/

/-- The steps at which nothing can strand: no crash, no retirement, no claim on an expired envelope. -/
def calm (s : System World Proc) (l : Label Choice Event) : Bool :=
  match l with
  | .proc _ .crash => false
  | .proc p .next =>
      match s.procs p with
      | .writing (.expired ..) _ => false
      | .writing (.claimed ..) _ => s.shared.db.request.all fun row => row.status != .expired
      | _ => true
  | _ => true

theorem not_strands_of_calm {s : System World Proc} {l : Label Choice Event} (h : calm s l = true) :
    ¬ Strands s l := by
  intro hstrands
  cases hstrands with
  | crash p row hrow hopen hsigned hp honly => cases h
  | expiry p row passed told now k hl hrow hopen hsigned =>
      simp only [calm, hl] at h
      cases h
  | lateClaim p row id hash data k hl hrow hexpired hcount hlast =>
      simp [calm, hl, hrow, hexpired] at h

/-- One signer, whose submit runs to its end. -/
theorem no_finished_envelope_stranded_one :
    let input := exampleInput .parallel [exampleRecipient "a" .signer 1]
    ∃ s, replayIf calm exampleConfig exampleTemplate input 0
        (exampleConsent 1 0 ++ exampleClaim 2 0 ++ List.replicate 3 (.proc 2 .next)) = some s ∧
      ∃ row, s.shared.db.request = some row ∧ row.status = .completed := by
  intro input
  have hrun : (replayIf calm exampleConfig exampleTemplate input 0
      (exampleConsent 1 0 ++ exampleClaim 2 0 ++ List.replicate 3 (.proc 2 .next))).map (fun s =>
        [s.shared.db.request.isSome && s.shared.db.request.all fun row => row.status != .voided,
          s.shared.db.recipients.all fun r => r.status == .completed,
          (List.range 3).all fun p => !(s.procs p).submitting]) =
      some [true, true, true] := by
    decide +kernel
  obtain ⟨s, hs, hfacts⟩ := Option.map_eq_some_iff.mp hrun
  simp only [List.cons.injEq, and_true, Bool.and_eq_true] at hfacts
  obtain ⟨⟨hrow, hvoided⟩, hcompleted, hprocs⟩ := hfacts
  obtain ⟨row, hrow⟩ := Option.isSome_iff_exists.mp hrow
  obtain ⟨sending, hsend, hreaches⟩ := replayIf_spec hs
  have hquiet := forall_procs_of_replayIf (Q := fun l => !l.submitting) hs (by decide) (by decide) rfl
    hprocs
  refine ⟨s, hs, row, hrow, ?_⟩
  exact no_finished_envelope_stranded (by decide +kernel) hsend
    (hreaches.mono fun s l h => not_strands_of_calm h) (fun p => by simpa using hquiet p) row hrow
    (fun r hr _ => by simpa using List.all_eq_true.mp hcompleted r hr)
    (by simpa [hrow] using hvoided)

/-- The only signer's submit dies after its claim: everybody has signed, nothing is under way, and the
envelope is still out for signature. -/
theorem finished_envelope_stranded :
    ∃ s, replay exampleConfig exampleTemplate
        (exampleInput .parallel [exampleRecipient "a" .signer 1]) 0
        (exampleConsent 1 0 ++ exampleClaim 2 0 ++ [.proc 2 .crash]) = some s ∧
      (∀ p, (s.procs p).submitting = false) ∧
      ∃ row, s.shared.db.request = some row ∧ AllSigned s.shared.db.recipients ∧
        row.status = .sent := by
  have hrun : (replay exampleConfig exampleTemplate
      (exampleInput .parallel [exampleRecipient "a" .signer 1]) 0
      (exampleConsent 1 0 ++ exampleClaim 2 0 ++ [.proc 2 .crash])).map (fun s =>
        [s.shared.db.request.isSome && s.shared.db.request.all fun row => row.status == .sent,
          s.shared.db.recipients.all fun r => r.status == .completed,
          (List.range 3).all fun p => !(s.procs p).submitting]) =
      some [true, true, true] := by
    decide +kernel
  obtain ⟨s, hs, hfacts⟩ := Option.map_eq_some_iff.mp hrun
  simp only [List.cons.injEq, and_true, Bool.and_eq_true] at hfacts
  obtain ⟨⟨hrow, hsent⟩, hcompleted, hprocs⟩ := hfacts
  obtain ⟨row, hrow⟩ := Option.isSome_iff_exists.mp hrow
  have hquiet := forall_procs_of_replayIf (Q := fun l => !l.submitting) hs (by decide) (by decide) rfl
    hprocs
  exact ⟨s, hs, fun p => by simpa using hquiet p, row, hrow,
    fun r hr _ => by simpa using List.all_eq_true.mp hcompleted r hr, by simpa [hrow] using hsent⟩

end ESignSoft.Envelope
