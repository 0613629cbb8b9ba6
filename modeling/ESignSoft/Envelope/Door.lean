import ESignSoft.Envelope.Finished
import ESignSoft.Envelope.CompletedRow

/-!
# The door that stays open after signing

Once an envelope is completed, `loadCompleted` lets the holder of a link at the signed copy.  It goes by
the hash and the status of the row that holds the link now.

* `door_opens_iff_used` — in the runs in which no update of a resend or a reminder hits a completed row,
  the links it opens for are those that signed;
* `reminded_link_opens` — a run in which a reminder does: the door opens for a link that nobody signed
  with, and no longer for the one that did.
-/

namespace ESignSoft.Envelope

open ESignSoft.Lib.JsText ESignSoft.Lib.Table ESignSoft.Lib.Interleaving
open ESignSoft.Contracts ESignSoft.Signing

/-- `loadCompleted`: the request whose artifacts are shown, or the one 404. -/
def loadCompleted (db : Db) (now : Int) (token : Nat) : Option SignatureRequest :=
  match resolve db (.sha256 token) with
  | none => none
  | some recipientId =>
      match db.request with
      | none => none
      | some row =>
          if row.status ≠ .completed then none
          else if row.expiresAt ≤ now then none
          else
            match recipientId with
            | some id =>
                match db.findRecipient id with
                | none => none
                | some rc =>
                    if rc.signingTokenHash ≠ some (.sha256 token) then none
                    -- Their own row says whether they signed.
                    else if rc.status ≠ .completed then none
                    else some row
            | none => if row.signingTokenHash ≠ some (.sha256 token) then none else some row

/-- The step commits no update of a resend or a reminder over a completed row. -/
def sparesLinks (s : System World Proc) (l : Label Choice Event) : Bool :=
  match l with
  | .proc p .next =>
      match s.procs p with
      | .writing write _ => !hitsCompleted s.shared.db write
      | _ => true
  | _ => true

theorem sparesLinks_commit {s : System World Proc} {p : Nat} {write : Write} {k : Kont}
    (hl : s.procs p = .writing write k) (h : sparesLinks s (.proc p .next) = true) :
    hitsCompleted s.shared.db write = false := by
  simpa only [sparesLinks, hl, Bool.not_eq_true'] using h

/-! ## Who the door opens for -/

/-- The rows of those who signed hold the links they signed with. -/
structure Doors (w : World) : Prop where
  distinct : w.db.Distinct
  used : ∀ r ∈ w.db.recipients, r.status = .completed → ∀ t, r.signingTokenHash = some (.sha256 t) →
    Used w t
  signed : w.db.request ≠ none → ∀ t, Used w t →
    ∃ r ∈ w.db.recipients, r.status = .completed ∧ r.signingTokenHash = some (.sha256 t)

structure ProcDoors (l : Proc) : Prop where
  claim : ∀ id hash data k, l.pending = some (.claimed id hash data, k) →
    ∃ token documentName now, k = .claimed token documentName now ∧ hash = .sha256 token
  own : ∀ write k, l.pending = some (write, k) → ∀ id id' t, (id, t) ∈ write.links →
    (id', t) ∈ write.links → id = id'

/-- A claim that completes a row uses its link. -/
theorem used_of_claimed {w : World} (hids : (w.db.recipients.map Recipient.id).Nodup) {r : Recipient}
    (hr : r ∈ w.db.recipients) {token : Nat} (hhash : r.signingTokenHash = some (.sha256 token))
    (hopen : r.open_ = true) (data : ClaimData) (documentName : JsString) (now : Int) :
    Used (w.commit (.claimed r.id (.sha256 token) data) (.claimed token documentName now)) token := by
  have hcount := count_claimed hids hr hhash hopen data
  refine used_commit.mpr (Or.inl
    ⟨⟨token, .recipient r ((Write.claimed r.id (.sha256 token) data).onRecipient r)⟩, ?_, rfl⟩)
  unfold Write.signings
  simp only [hcount, if_true]
  refine List.mem_map.mpr ⟨_, ?_, rfl⟩
  unfold Write.signedRows
  exact List.mem_map.mpr ⟨r, List.mem_filter.mpr ⟨hr, by simp [hhash, hopen]⟩, rfl⟩

theorem Doors.commit {w : World} {write : Write} {k : Kont} (h : Doors w) (hroles : Roles w.db)
    (hwrite : WriteRoles w.db write) (hissued : Issued w) (hown : InHand w (.writing write k))
    (hproc : ProcDoors (.writing write k)) (hspares : hitsCompleted w.db write = false) :
    Doors (w.commit write k) where
  distinct := h.distinct.write (fun id t hlink => (hown.waits write k rfl id t hlink).2)
    (hproc.own write k rfl)
  used := by
    intro r' hr' hcompleted t ht
    obtain ⟨r, hr, rfl⟩ := exists_of_mem_write hr'
    rcases onRecipient_completed hcompleted with hold | ⟨hash, data, rfl, hhash, hopen⟩
    · have hsame := sameEvidence_write hroles hwrite hspares hr hold
      rw [hsame.signingTokenHash] at ht
      exact used_commit.mpr (Or.inr (h.used r hr hold t ht))
    · obtain ⟨token, documentName, now, rfl, rfl⟩ := hproc.claim _ _ _ k rfl
      -- A claim leaves the link in the row.
      have hkept : ((Write.claimed r.id (.sha256 token) data).onRecipient r).signingTokenHash =
          r.signingTokenHash := by
        simp only [Write.onRecipient]
        rw [updateRow_of_true (by simp [hhash, hopen])]
      rw [hkept, hhash] at ht
      obtain rfl := TokenHash.sha256.inj (Option.some.inj ht)
      exact used_of_claimed hroles.ids hr hhash hopen data documentName now
  signed := by
    intro hrow t ht
    have hkept : write ≠ .deleted := by
      rintro rfl
      exact hrow rfl
    rcases used_commit.mp ht with ⟨sg, hsg, rfl⟩ | hold
    · obtain ⟨⟨documentName, now, rfl⟩, hcase⟩ := mem_signings hsg
      rcases hcase with ⟨id, hash, data, rfl, r, hr, rfl, hhash, hopen, -⟩ | ⟨hash, data, s, -, hs, hhash, -⟩
      · obtain ⟨token, _, _, hk, rfl⟩ := hproc.claim _ _ _ _ rfl
        obtain rfl : sg.token = token := (Kont.claimed.inj hk).1
        refine ⟨_, mem_write hkept hr, (onRecipient_claimed hhash hopen data).2.2, ?_⟩
        simp only [Write.onRecipient]
        rw [updateRow_of_true (by simp [hhash, hopen])]
        exact hhash
      · rw [hissued.legacy s hs] at hhash
        cases hhash
    · have hrow' : w.db.request ≠ none := by
        intro hnone
        apply hrow
        show (w.db.write write).request = none
        cases hs : (w.db.write write).request with
        | none => rfl
        | some s =>
            obtain ⟨s₀, hs₀, -⟩ := exists_of_write_request hs
            rw [hnone] at hs₀
            cases hs₀
      obtain ⟨r, hr, hcompleted, hhash⟩ := h.signed hrow' t hold
      have hsame := sameEvidence_write hroles hwrite hspares hr hcompleted
      exact ⟨_, mem_write hkept hr, hsame.status.trans hcompleted, hsame.signingTokenHash.trans hhash⟩

theorem Doors.same {w w' : World} (h : Doors w) (hsame : SameRows w w') : Doors w' := by
  have hused : ∀ t, Used w' t ↔ Used w t := fun t => by
    unfold Used
    rw [hsame.signings]
  refine ⟨?_, ?_, ?_⟩
  · rw [hsame.db]
    exact h.distinct
  · intro r hr hcompleted t ht
    rw [hsame.db] at hr
    exact (hused t).mpr (h.used r hr hcompleted t ht)
  · intro hrow t ht
    rw [hsame.db] at hrow ⊢
    exact h.signed hrow t ((hused t).mp ht)

theorem ProcDoors.ready {cfg : Config} {w w' : World} {l l' : Proc} (hl : l.Consistent)
    (hready : Readies cfg w l w' l') : ProcDoors l' where
  claim id hash data k hpending := by
    obtain ⟨token, visit, req, rfl, -, rfl, -, -, documentName, now, hk⟩ := (hready.pending _ k hpending).claim
    exact ⟨token, documentName, now, hk, hl token visit req rfl⟩
  own write k hpending _ _ _ hlink hlink' := (hready.pending write k hpending).link_inj hlink hlink'

theorem doorsOutline (cfg : Config) :
    ProofOutline (service cfg) (fun s l => sparesLinks s l = true ∧ Sound s) Doors
      (fun _ _ l => ProcDoors l) (fun _ _ => True) where
  act := by
    rintro s p c sh l hs ⟨hspares, hsound⟩ hact
    rcases act_spec (p := p) hact with ⟨write, k, hl, rfl, rfl, rfl⟩ | hready
    · have hproc := hs.proc p
      have hown := hsound.tokens.proc p
      rw [hl] at hproc hown
      refine ⟨hs.shared.commit hsound.roles.shared
        ((hsound.roles.proc p).pending write k (by rw [hl]; rfl)) hsound.tokens.shared hown hproc
        (sparesLinks_commit hl hspares), ?_, fun q _ => hs.proc q, fun _ _ => ⟨trivial, trivial⟩⟩
      exact ⟨by simp [Kont.pending_after], by simp [Kont.pending_after]⟩
    · exact ⟨hs.shared.same hready.same, ProcDoors.ready (hsound.tokens.proc p).loaded hready,
        fun q _ => hs.proc q, fun _ _ => ⟨trivial, trivial⟩⟩
  env := by
    rintro s e sh hs - henv
    exact ⟨hs.shared.same (env_spec henv), hs.proc⟩

theorem doorsHolds_start {input : SendRequest} {s : Sending} (h : NewEnvelope input s.minted s.db)
    (now : Int) : Holds Doors (fun _ _ l => ProcDoors l) (fun _ _ => True) (start s now) where
  shared :=
    { distinct := fun r hr q hq heq hsome => by rw [h.distinct r hr q hq heq hsome]
      used := fun r hr hcompleted => absurd hcompleted (h.not_completed hr)
      signed := fun _ t ht => by cases ht }
  proc p := by
    simp only [start]
    split <;> exact ⟨by simp [Proc.pending], by simp [Proc.pending]⟩
  pair _ _ _ := trivial

/-- The door of a completed envelope opens for the links in completed rows. -/
theorem loadCompleted_isSome_iff {db : Db} {now : Int} {token : Nat} {row : SignatureRequest}
    (hids : (db.recipients.map Recipient.id).Nodup) (hdistinct : db.Distinct)
    (hrow : db.request = some row) (hlegacy : row.signingTokenHash = none)
    (hcompleted : row.status = .completed) (hlive : now < row.expiresAt) :
    (loadCompleted db now token).isSome = true ↔
      ∃ r ∈ db.recipients, r.status = .completed ∧ r.signingTokenHash = some (.sha256 token) := by
  unfold loadCompleted
  cases hfind : db.recipients.find? fun r => r.signingTokenHash == some (.sha256 token) with
  | none =>
      -- The envelope itself has no link.
      have hresolve : resolve db (.sha256 token) = none := by
        simp only [resolve, hfind, hrow, hlegacy]
        rfl
      rw [hresolve]
      constructor
      · intro h
        cases h
      · rintro ⟨r, hr, -, hhash⟩
        have hnot := List.find?_eq_none.mp hfind r hr
        exact absurd (beq_iff_eq.mpr hhash) hnot
  | some rc =>
      have hrc := List.mem_of_find?_eq_some hfind
      have hhash : rc.signingTokenHash = some (.sha256 token) := by
        simpa using List.find?_some hfind
      have hresolve : resolve db (.sha256 token) = some (some rc.id) := by
        simp only [resolve, hfind]
      have hread : db.findRecipient rc.id = some rc :=
        find?_eq_some_of_mem hids hrc (beq_self_eq_true rc.id) fun q _ hq => beq_iff_eq.mp hq
      have hnot : ¬ row.expiresAt ≤ now := not_le.mpr hlive
      simp only [hresolve, hrow, hcompleted, hnot, hread, hhash, ne_eq, not_true_eq_false, if_false]
      constructor
      · intro h
        refine ⟨rc, hrc, ?_, hhash⟩
        by_contra hleft
        rw [if_pos hleft] at h
        cases h
      · rintro ⟨r, hr, hstatus, hhash'⟩
        have hid := hdistinct r hr rc hrc (hhash'.trans hhash.symm) (by simp [hhash'])
        rw [← eq_of_key_eq hids hr hrc hid, if_neg (by simp [hstatus])]
        rfl

/-- **The post-signing door opens exactly for those who signed**, in the runs in which no update of a
resend or a reminder hits a completed row. -/
theorem door_opens_iff_used {cfg : Config} {template : Option Template} {input : SendRequest}
    {senderName : Option JsString} {now : Int} {sending : Sending}
    (hinput : SendRequestSchema cfg.platform input = true)
    (hsend : send cfg template input senderName now = .ok sending) {s : System World Proc}
    (hs : Reaches (service cfg) (fun s l => sparesLinks s l = true) (start sending now) s)
    {row : SignatureRequest} (hrow : s.shared.db.request = some row) (hcompleted : row.status = .completed)
    (hlive : s.shared.now < row.expiresAt) (token : Nat) :
    (loadCompleted s.shared.db s.shared.now token).isSome = true ↔
      ∃ sg ∈ s.shared.signings, sg.token = token := by
  have hnew := send_spec hinput hsend
  have hrun := reaches_sound hs (sound_start hnew now)
  have hdoors := ((doorsOutline cfg).holds_of_reaches hrun (doorsHolds_start hnew now)).shared
  have hsound : Sound s := Reaches.invariant (fun a l b ha _ hstep => sound_step a l b ha hstep) hs
    (sound_start hnew now)
  rw [loadCompleted_isSome_iff hsound.roles.shared.ids hdoors.distinct hrow
    (hsound.tokens.shared.legacy row hrow) hcompleted hlive]
  constructor
  · rintro ⟨r, hr, hstatus, hhash⟩
    exact List.mem_map.mp (hdoors.used r hr hstatus token hhash)
  · rintro ⟨sg, hsg, rfl⟩
    exact hdoors.signed (by simp [hrow]) sg.token (List.mem_map_of_mem hsg)

/-- Two signers, one of whom was sent the link again before signing. -/
theorem door_opens_iff_used_resent :
    let input := exampleInput .parallel [exampleRecipient "a" .signer 1, exampleRecipient "b" .signer 1]
    let schedule := exampleConsent 1 0 ++ .env (.clock 90000) :: exampleCall 2 (.resend 1) 3 ++
      exampleConsent 3 2 ++ exampleClaim 4 0 ++ exampleClaim 5 2 ++ List.replicate 3 (.proc 5 .next)
    ∃ s, replayIf sparesLinks exampleConfig exampleTemplate input 0 schedule = some s ∧
      s.shared.signings.map Signing.token = [2, 0] ∧
      ∀ token, (loadCompleted s.shared.db s.shared.now token).isSome = true ↔
        ∃ sg ∈ s.shared.signings, sg.token = token := by
  intro input schedule
  have hrun : (replayIf sparesLinks exampleConfig exampleTemplate input 0 schedule).map (fun s =>
      (s.shared.signings.map Signing.token, s.shared.db.request.any fun row =>
        row.status == .completed && decide (s.shared.now < row.expiresAt))) = some ([2, 0], true) := by
    decide +kernel
  obtain ⟨s, hs, heq⟩ := Option.map_eq_some_iff.mp hrun
  obtain ⟨htokens, hrow⟩ := Prod.mk.inj heq
  obtain ⟨row, hrow, hstatus⟩ := Option.any_eq_true _ _ |>.mp hrow
  simp only [Bool.and_eq_true, beq_iff_eq, decide_eq_true_eq] at hstatus
  obtain ⟨sending, hsend, hreaches⟩ := replayIf_spec hs
  exact ⟨s, hs, htokens, door_opens_iff_used (by decide +kernel) hsend hreaches hrow hstatus.1 hstatus.2⟩

/-- A reminder sweep has read a recipient who then signs, and the envelope completes; the sweep goes on
to store its new link.  The door opens for that link, and not for the one that signed. -/
theorem reminded_link_opens :
    let schedule := exampleConsent 1 0 ++ .env (.clock 259200000) :: exampleCall 2 .sweepReminders 3 ++
      exampleClaim 3 0 ++ List.replicate 3 (.proc 3 .next) ++ [.proc 2 .next]
    ∃ s, replay exampleConfig exampleTemplate
        (exampleInput .parallel [exampleRecipient "a" .signer 1]) 0 schedule = some s ∧
      (s.shared.db.request.any fun row =>
        row.status == .completed && decide (s.shared.now < row.expiresAt)) = true ∧
      s.shared.signings.map Signing.token = [0] ∧
      (loadCompleted s.shared.db s.shared.now 1).isSome = true ∧
      loadCompleted s.shared.db s.shared.now 0 = none := by
  intro schedule
  have hrun : (replay exampleConfig exampleTemplate
      (exampleInput .parallel [exampleRecipient "a" .signer 1]) 0 schedule).map (fun s =>
        ((s.shared.db.request.any fun row =>
          row.status == .completed && decide (s.shared.now < row.expiresAt)),
        s.shared.signings.map Signing.token,
        (loadCompleted s.shared.db s.shared.now 1).isSome,
        (loadCompleted s.shared.db s.shared.now 0).isNone)) = some (true, [0], true, true) := by
    decide +kernel
  obtain ⟨s, hs, heq⟩ := Option.map_eq_some_iff.mp hrun
  simp only [Prod.mk.injEq, Option.isNone_iff_eq_none] at heq
  exact ⟨s, hs, heq⟩

end ESignSoft.Envelope
