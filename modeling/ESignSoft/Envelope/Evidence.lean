import ESignSoft.Envelope.Finished

/-!
# The timeline of a signature

What the certificate says about a signer: when and from where the link was first opened, when they
agreed, when they signed.  The write of a view is guarded by the status `sent` alone, which a resend
brings back, and nothing asks whether a view comes before the consent.

* `evidence_written_once` — in the runs in which a view is only written to a row that has none and has
  not agreed before, and a consent is not stamped before the view on record, what a row says about them
  never changes and is in order;
* `evidence_overwritten` — a run in which a second view replaces the first.
-/

namespace ESignSoft.Envelope

open ESignSoft.Lib.JsText ESignSoft.Lib.Table ESignSoft.Lib.Interleaving
open ESignSoft.Contracts ESignSoft.Signing

/-- The second row still says what the first one said about view and consent. -/
structure WrittenOnce (r r' : Recipient) : Prop where
  view : r.viewedAt ≠ none → r'.viewedAt = r.viewedAt ∧ r'.viewedIp = r.viewedIp ∧
    r'.viewedUserAgent = r.viewedUserAgent
  consent : r.consentAt ≠ none → r'.consentAt = r.consentAt

theorem WrittenOnce.refl (r : Recipient) : WrittenOnce r r := ⟨fun _ => ⟨rfl, rfl, rfl⟩, fun _ => rfl⟩

theorem WrittenOnce.trans {a b c : Recipient} (hab : WrittenOnce a b) (hbc : WrittenOnce b c) :
    WrittenOnce a c where
  view h := by
    obtain ⟨hat, hip, hua⟩ := hab.view h
    obtain ⟨hat', hip', hua'⟩ := hbc.view (by rwa [hat])
    exact ⟨hat'.trans hat, hip'.trans hip, hua'.trans hua⟩
  consent h := by
    have hat := hab.consent h
    exact (hbc.consent (by rwa [hat])).trans hat

/-- A view is written only where there is none yet and no earlier consent; a consent is stamped no
earlier than the view on record. -/
def Write.inOrder (write : Write) (db : Db) : Bool :=
  match write with
  | .viewed id now _ _ => db.recipients.all fun r => !(r.id == id && r.status == .sent) ||
      (r.viewedAt == none && r.consentAt.all fun c => decide (now ≤ c))
  | .consented id now => db.recipients.all fun r =>
      !(r.id == id && r.open_ && r.consentAt == none) || r.viewedAt.all fun v => decide (v ≤ now)
  | _ => true

def inOrder (s : System World Proc) (l : Label Choice Event) : Bool :=
  match l with
  | .proc p .next =>
      match s.procs p with
      | .writing write _ => write.inOrder s.shared.db
      | _ => true
  | _ => true

theorem Write.inOrder_viewed {db : Db} {r : Recipient} {now : Int} {ip ua : Option JsString}
    (h : (Write.viewed r.id now ip ua).inOrder db = true) (hr : r ∈ db.recipients)
    (hsent : r.status = .sent) : r.viewedAt = none ∧ ∀ c, r.consentAt = some c → now ≤ c := by
  have hrow := List.all_eq_true.mp h r hr
  simp only [beq_self_eq_true, hsent, Bool.and_self, Bool.not_true, Bool.false_or, Bool.and_eq_true,
    beq_iff_eq, Option.all_eq_true, decide_eq_true_eq] at hrow
  exact hrow

theorem Write.inOrder_consented {db : Db} {r : Recipient} {now : Int}
    (h : (Write.consented r.id now).inOrder db = true) (hr : r ∈ db.recipients) (hopen : r.open_ = true)
    (hnone : r.consentAt = none) : ∀ v, r.viewedAt = some v → v ≤ now := by
  have hrow := List.all_eq_true.mp h r hr
  simpa only [beq_self_eq_true, hopen, hnone, Bool.and_self, Bool.not_true, Bool.false_or,
    Option.all_eq_true, decide_eq_true_eq] using hrow

/-! ## One commit -/

theorem writtenOnce_write {db : Db} {write : Write} (horder : write.inOrder db = true) {r : Recipient}
    (hr : r ∈ db.recipients) : WrittenOnce r (write.onRecipient r) := by
  have hspec := onRecipient_spec write r
  generalize write.onRecipient r = r' at hspec ⊢
  cases hspec with
  | viewed now ip ua hw hsent =>
      subst hw
      have hnone := (Write.inOrder_viewed horder hr hsent).1
      exact ⟨fun h => absurd hnone h, fun _ => rfl⟩
  | consented now hw hopen hnone => exact ⟨fun _ => ⟨rfl, rfl, rfl⟩, fun h => absurd hnone h⟩
  | _ => exact ⟨fun _ => ⟨rfl, rfl, rfl⟩, fun _ => rfl⟩

/-- First open, then consent, then signature. -/
structure Timeline (r : Recipient) : Prop where
  blank : r.viewedAt = none → r.viewedIp = none ∧ r.viewedUserAgent = none
  agreed : ∀ v c, r.viewedAt = some v → r.consentAt = some c → v ≤ c
  signed : r.status = .completed → ∃ c d, r.consentAt = some c ∧ r.completedAt = some d ∧ c ≤ d

theorem Timeline.write {db : Db} {write : Write} {r : Recipient} (h : Timeline r)
    (horder : write.inOrder db = true) (hr : r ∈ db.recipients)
    (hclaim : ∀ hash data, write = .claimed r.id hash data →
      ∃ c, r.consentAt = some c ∧ c ≤ data.completedAt) : Timeline (write.onRecipient r) := by
  have hspec := onRecipient_spec write r
  generalize write.onRecipient r = r' at hspec ⊢
  cases hspec with
  | same => exact h
  | viewed now ip ua hw hsent =>
      subst hw
      have hearly := (Write.inOrder_viewed horder hr hsent).2
      refine ⟨fun hnone => absurd hnone (Option.some_ne_none now), ?_,
        fun hcompleted => absurd hcompleted (by simp)⟩
      intro v c hv hc
      obtain rfl := Option.some.inj hv
      exact hearly c hc
  | consented now hw hopen hnone =>
      subst hw
      have hlate := Write.inOrder_consented horder hr hopen hnone
      refine ⟨h.blank, ?_, ?_⟩
      · intro v c hv hc
        obtain rfl := Option.some.inj hc
        exact hlate v hv
      · intro hcompleted
        rw [Recipient.open_iff, show r.status = .completed from hcompleted] at hopen
        simp at hopen
  | claimed hash data hw hhash hopen =>
      obtain ⟨c, hc, hle⟩ := hclaim hash data hw
      exact ⟨h.blank, h.agreed, fun _ => ⟨c, data.completedAt, hc, rfl, hle⟩⟩
  | activated group now hw hcc => exact ⟨h.blank, h.agreed, fun hcompleted => absurd hcompleted (by simp)⟩
  | invited group now token hw hsigner hpending =>
      exact ⟨h.blank, h.agreed, fun hcompleted => absurd hcompleted (by simp)⟩
  | cleared hw hleft => exact ⟨h.blank, h.agreed, h.signed⟩
  | resent token now hw => exact ⟨h.blank, h.agreed, fun hcompleted => absurd hcompleted (by simp)⟩
  | reminded token now hw => exact ⟨h.blank, h.agreed, h.signed⟩

/-! ## Every run -/

/-- What holds of every state of a run whose clock goes forward. -/
structure Linked (s : System World Proc) : Prop where
  roles : Holds (fun w : World => Roles w.db) (fun w _ l => ProcRoles w l) (fun _ _ => True) s
  links : Holds Links (fun w _ l => ProcLinks w l) Apart s

theorem linked_step {cfg : Config} (s : System World Proc) (l : Label Choice Event)
    (s' : System World Proc) (hs : Linked s) (hclock : clockForward s l = true)
    (hstep : (service cfg).step s l = some s') : Linked s' where
  roles := (rolesOutline cfg fun _ _ => True).holds_step s l s' hs.roles trivial hstep
  links := (linksOutline cfg).holds_step s l s' hs.links ⟨hclock, hs.roles⟩ hstep

/-- A step in order keeps the timeline of every row, and writes nothing twice. -/
theorem timeline_step {cfg : Config} {s s' : System World Proc} {l : Label Choice Event} (hs : Linked s)
    (horder : inOrder s l = true) (htime : ∀ r ∈ s.shared.db.recipients, Timeline r)
    (hstep : (service cfg).step s l = some s') :
    (∀ r ∈ s'.shared.db.recipients, Timeline r) ∧
      ∀ r' ∈ s'.shared.db.recipients, ∃ r ∈ s.shared.db.recipients, r.id = r'.id ∧ WrittenOnce r r' := by
  rcases step_rows hstep with ⟨p, write, k, rfl, hl, hcommit⟩ | hsame
  · have hin : write.inOrder s.shared.db = true := by
      simpa only [inOrder, hl] using horder
    have hpending : (s.procs p).pending = some (write, k) := by rw [hl]; rfl
    rw [hcommit]
    constructor
    · intro r' hr'
      obtain ⟨r, hr, rfl⟩ := exists_of_mem_write hr'
      refine (htime r hr).write hin hr fun hash data hw => ?_
      subst hw
      obtain ⟨_, _, _, -, -, c, hle, hconsented⟩ := (hs.links.proc p).claim _ _ _ k hpending
      exact ⟨c, hconsented r hr rfl, hle⟩
    · intro r' hr'
      obtain ⟨r, hr, rfl⟩ := exists_of_mem_write hr'
      exact ⟨r, hr, (onRecipient_id write r).symm, writtenOnce_write hin hr⟩
  · rw [hsame.db]
    exact ⟨htime, fun r hr => ⟨r, hr, rfl, WrittenOnce.refl r⟩⟩

/-- The steps the timeline is kept in. -/
def InOrder (s : System World Proc) (l : Label Choice Event) : Prop :=
  clockForward s l = true ∧ inOrder s l = true

theorem timeline_run {cfg : Config} {s s' : System World Proc}
    (hs : Linked s ∧ ∀ r ∈ s.shared.db.recipients, Timeline r) (h : Reaches (service cfg) InOrder s s') :
    (Linked s' ∧ ∀ r ∈ s'.shared.db.recipients, Timeline r) ∧
      ∀ r' ∈ s'.shared.db.recipients, ∃ r ∈ s.shared.db.recipients, r.id = r'.id ∧ WrittenOnce r r' := by
  refine Reaches.invariant (I := fun t => (Linked t ∧ ∀ r ∈ t.shared.db.recipients, Timeline r) ∧
    ∀ r' ∈ t.shared.db.recipients, ∃ r ∈ s.shared.db.recipients, r.id = r'.id ∧ WrittenOnce r r') ?_ h
    ⟨hs, fun r hr => ⟨r, hr, rfl, WrittenOnce.refl r⟩⟩
  rintro a l b ⟨⟨hlinked, htime⟩, honce⟩ ⟨hclock, horder⟩ hstep
  obtain ⟨htime', honce'⟩ := timeline_step hlinked horder htime hstep
  refine ⟨⟨linked_step a l b hlinked hclock hstep, htime'⟩, fun r' hr' => ?_⟩
  obtain ⟨r₁, hr₁, hid₁, hw₁⟩ := honce' r' hr'
  obtain ⟨r, hr, hid, hw⟩ := honce r₁ hr₁
  exact ⟨r, hr, hid.trans hid₁, hw.trans hw₁⟩

theorem linked_start {input : SendRequest} {s : Sending} (h : NewEnvelope input s.minted s.db)
    (now : Int) : Linked (start s now) :=
  ⟨rolesHolds_start h now, linksHolds_start h now⟩

/-- A row that was just sent says nothing yet. -/
theorem timeline_start {cfg : Config} {template : Option Template} {input : SendRequest}
    {senderName : Option JsString} {now : Int} {sending : Sending}
    (hsend : send cfg template input senderName now = .ok sending) :
    ∀ r ∈ (start sending now).shared.db.recipients, Timeline r := by
  obtain ⟨t, firstSigner, tokens, -, hdb⟩ := send_rows hsend
  intro r hr
  have hnew : r ∈ newRecipients input tokens now := by
    have hrows : r ∈ sending.db.recipients := hr
    rwa [hdb] at hrows
  obtain ⟨x, -, id, rfl⟩ := exists_of_mem_newRecipients hnew
  refine ⟨fun _ => ⟨rfl, rfl⟩, fun v c hv => absurd hv (by simp [newRecipient]), fun hcompleted => ?_⟩
  simp only [newRecipient] at hcompleted
  split at hcompleted <;> cases hcompleted

/-- **Ceremony evidence is written once and in order**, in the runs in which a view is only written
to a row that has none and no earlier consent, and a consent is not stamped before the view. -/
theorem evidence_written_once {cfg : Config} {template : Option Template} {input : SendRequest}
    {senderName : Option JsString} {now : Int} {sending : Sending}
    (hinput : SendRequestSchema cfg.platform input = true)
    (hsend : send cfg template input senderName now = .ok sending) {s s' : System World Proc}
    (hs : Reaches (service cfg) InOrder (start sending now) s) (hs' : Reaches (service cfg) InOrder s s') :
    (∀ r' ∈ s'.shared.db.recipients, ∃ r ∈ s.shared.db.recipients, r.id = r'.id ∧ WrittenOnce r r') ∧
    ∀ r ∈ s.shared.db.recipients,
      (r.viewedAt = none → r.viewedIp = none ∧ r.viewedUserAgent = none) ∧
      (r.status = .completed → ∀ v, r.viewedAt = some v →
        ∃ c d, r.consentAt = some c ∧ r.completedAt = some d ∧ v ≤ c ∧ c ≤ d) := by
  have hstart := linked_start (send_spec hinput hsend) now
  obtain ⟨hreached, -⟩ := timeline_run ⟨hstart, timeline_start hsend⟩ hs
  refine ⟨(timeline_run hreached hs').2, fun r hr => ⟨(hreached.2 r hr).blank, ?_⟩⟩
  intro hcompleted v hv
  obtain ⟨c, d, hc, hd, hle⟩ := (hreached.2 r hr).signed hcompleted
  exact ⟨c, d, hc, hd, (hreached.2 r hr).agreed v c hv hc, hle⟩

/-- Process `p` opens a link. -/
def exampleView (p token : Nat) : List (Label Choice Event) :=
  exampleCall p (.visit token (.view (some (js "10.0.0.1")) none)) 5

/-- The link is opened, agreed to, sent again and signed. -/
theorem evidence_written_once_resent :
    let input := exampleInput .parallel [exampleRecipient "a" .signer 1]
    let schedule := .env (.clock 1000) :: exampleView 1 0 ++ .env (.clock 2000) :: exampleConsent 2 0 ++
      .env (.clock 90000) :: exampleCall 3 (.resend 0) 3 ++ exampleClaim 4 1
    ∃ s, replayIf (fun s l => clockForward s l && inOrder s l) exampleConfig exampleTemplate input 0
        schedule = some s ∧
      (s.shared.db.recipients.map fun r => (r.viewedAt, r.consentAt, r.completedAt)) =
        [(some 1000, some 2000, some 90000)] ∧
      ∀ r ∈ s.shared.db.recipients,
        (r.viewedAt = none → r.viewedIp = none ∧ r.viewedUserAgent = none) ∧
        (r.status = .completed → ∀ v, r.viewedAt = some v →
          ∃ c d, r.consentAt = some c ∧ r.completedAt = some d ∧ v ≤ c ∧ c ≤ d) := by
  intro input schedule
  have hrun : (replayIf (fun s l => clockForward s l && inOrder s l) exampleConfig exampleTemplate input 0
      schedule).map (fun s => s.shared.db.recipients.map fun r => (r.viewedAt, r.consentAt, r.completedAt)) =
        some [(some 1000, some 2000, some 90000)] := by
    decide +kernel
  obtain ⟨s, hs, htimes⟩ := Option.map_eq_some_iff.mp hrun
  obtain ⟨sending, hsend, hreaches⟩ := replayIf_spec hs
  have hinOrder : Reaches (service exampleConfig) InOrder (start sending 0) s :=
    hreaches.mono fun _ _ h => Bool.and_eq_true_iff.mp h
  exact ⟨s, hs, htimes, (evidence_written_once (by decide +kernel) hsend hinOrder
    Relation.ReflTransGen.refl).2⟩

/-- A link that is sent again is opened again: the second view replaces the first, and comes after the
consent. -/
theorem evidence_overwritten :
    let input := exampleInput .parallel [exampleRecipient "a" .signer 1]
    let first := .env (.clock 1000) :: exampleView 1 0 ++ .env (.clock 2000) :: exampleConsent 2 0
    let second := .env (.clock 90000) :: exampleCall 3 (.resend 0) 3 ++ exampleView 4 1 ++ exampleClaim 5 1
    ((replayIf clockForward exampleConfig exampleTemplate input 0 first).map fun s =>
      s.shared.db.recipients.map fun r => (r.viewedAt, r.consentAt)) = some [(some 1000, some 2000)] ∧
    ((replayIf clockForward exampleConfig exampleTemplate input 0 (first ++ second)).map fun s =>
      s.shared.db.recipients.map fun r => (r.status, r.viewedAt, r.consentAt, r.completedAt)) =
        some [(.completed, some 90000, some 2000, some 90000)] := by
  decide +kernel

end ESignSoft.Envelope
