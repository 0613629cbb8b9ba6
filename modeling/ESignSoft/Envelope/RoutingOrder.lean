import ESignSoft.Envelope.Signatures

/-!
# Routing order is never jumped

A link for a signer gets ready in four places: the send, the hand-off, a resend and a reminder.  The
hand-off reads that every signer of a lower order has completed; the other two read a row that is not
pending any more.  What they read stays true until they commit, because a completed row is a signature
on record and the record only grows.

* `turns_commit` — a commit keeps the order of turns;
* `routing_order_kept` — the order holds in every run.
-/

namespace ESignSoft.Envelope

open ESignSoft.Lib.JsText ESignSoft.Lib.Table ESignSoft.Lib.Interleaving
open ESignSoft.Contracts ESignSoft.Signing

/-- Every signer of a lower order has signed. -/
def TurnCame (w : World) (order : Nat) : Prop :=
  ∀ q ∈ w.db.recipients, q.role = .signer → q.routingOrder < order → Signed w q.id

/-- The turn of whoever has this id has come. -/
def Ready (w : World) (id : Nat) : Prop :=
  ∀ r ∈ w.db.recipients, r.id = id → TurnCame w r.routingOrder

structure Turns (w : World) : Prop where
  ids : (w.db.recipients.map Recipient.id).Nodup
  turn : ∀ r ∈ w.db.recipients, r.role = .signer →
    r.status ≠ .pending ∨ r.signingTokenHash ≠ none → TurnCame w r.routingOrder
  signed : ∀ r ∈ w.db.recipients, r.status = .completed → Signed w r.id

/-- The transaction in hand invites nobody out of turn, and a claim is the claim of a submit. -/
structure WriteTurns (w : World) (write : Write) (k : Kont) : Prop where
  links : ∀ id token, (id, token) ∈ write.links → Ready w id
  activates : ∀ id ∈ write.activates, Ready w id
  claim : ∀ id hash data, write = .claimed id hash data →
    ∃ token documentName now, k = .claimed token documentName now

structure ProcTurns (w : World) (l : Proc) : Prop where
  pending : ∀ write k, l.pending = some (write, k) → WriteTurns w write k
  due : ∀ id ∈ l.due, Ready w id

/-! ## What has come stays -/

theorem TurnCame.commit {w : World} {order : Nat} (h : TurnCame w order) (write : Write) (k : Kont) :
    TurnCame (w.commit write k) order := by
  intro q' hq' hrole hlt
  obtain ⟨q, hq, rfl⟩ := exists_of_mem_write hq'
  rw [onRecipient_role] at hrole
  rw [onRecipient_routingOrder] at hlt
  rw [onRecipient_id]
  exact (h q hq hrole hlt).commit write k

theorem Ready.commit {w : World} {id : Nat} (h : Ready w id) (write : Write) (k : Kont) :
    Ready (w.commit write k) id := by
  intro r' hr' hid
  obtain ⟨r, hr, rfl⟩ := exists_of_mem_write hr'
  rw [onRecipient_id] at hid
  rw [onRecipient_routingOrder]
  exact (h r hr hid).commit write k

theorem TurnCame.same {w w' : World} {order : Nat} (h : TurnCame w order) (hsame : SameRows w w') :
    TurnCame w' order := by
  intro q hq hrole hlt
  rw [hsame.db] at hq
  exact (h q hq hrole hlt).same hsame

theorem Ready.same {w w' : World} {id : Nat} (h : Ready w id) (hsame : SameRows w w') :
    Ready w' id := by
  intro r hr hid
  rw [hsame.db] at hr
  exact (h r hr hid).same hsame

theorem Turns.same {w w' : World} (h : Turns w) (hsame : SameRows w w') : Turns w' where
  ids := by
    rw [hsame.db]
    exact h.ids
  turn := by
    intro r hr hrole hinvited
    rw [hsame.db] at hr
    exact (h.turn r hr hrole hinvited).same hsame
  signed := by
    intro r hr hcompleted
    rw [hsame.db] at hr
    exact (h.signed r hr hcompleted).same hsame

theorem ProcTurns.commit {w : World} {l : Proc} (h : ProcTurns w l) (write : Write) (k : Kont) :
    ProcTurns (w.commit write k) l where
  pending write' k' hl :=
    { links := fun id token hlink => ((h.pending write' k' hl).links id token hlink).commit write k
      activates := fun id hid => ((h.pending write' k' hl).activates id hid).commit write k
      claim := (h.pending write' k' hl).claim }
  due id hid := (h.due id hid).commit write k

theorem ProcTurns.same {w w' : World} {l : Proc} (h : ProcTurns w l) (hsame : SameRows w w') :
    ProcTurns w' l where
  pending write k hl :=
    { links := fun id token hlink => ((h.pending write k hl).links id token hlink).same hsame
      activates := fun id hid => ((h.pending write k hl).activates id hid).same hsame
      claim := (h.pending write k hl).claim }
  due id hid := (h.due id hid).same hsame

theorem ProcTurns.after {w : World} (k : Kont) {write : Write} (h : ProcTurns w (.writing write k)) :
    ProcTurns w (k.after write w.db) where
  pending write' k' hl := by
    rw [Kont.pending_after] at hl
    cases hl
  due id hid := h.due id (k.due_after write w.db id hid)

/-! ## A commit -/

/-- Whoever is not waiting after a commit, or holds a link then, was not waiting or held one before,
or it is one of those the commit is for. -/
theorem turn_of_onRecipient {write : Write} {r : Recipient}
    (h : (write.onRecipient r).status ≠ .pending ∨ (write.onRecipient r).signingTokenHash ≠ none) :
    (r.status ≠ .pending ∨ r.signingTokenHash ≠ none) ∨ r.id ∈ write.activates ∨
      ∃ token, (r.id, token) ∈ write.links := by
  have hspec := onRecipient_spec write r
  generalize write.onRecipient r = r' at h hspec
  cases hspec with
  | same => exact Or.inl h
  | viewed now ip ua hw hsent => exact Or.inl (Or.inl (by simp [hsent]))
  | consented now hw hopen hnone => exact Or.inl h
  | claimed hash data hw hhash hopen => exact Or.inl (Or.inr (by simp [hhash]))
  | activated group now hw hcc =>
      refine Or.inr (Or.inl ?_)
      rw [hw]
      exact mem_activates_handedOff.mpr hcc
  | invited group now token hw hsigner hpending =>
      refine Or.inr (Or.inr ⟨token, ?_⟩)
      rw [hw]
      exact mem_links_handedOff.mpr hsigner
  | cleared hw hleft =>
      rcases h with hstatus | hhash
      · exact Or.inl (Or.inl hstatus)
      · exact absurd rfl hhash
  | resent token now hw =>
      refine Or.inr (Or.inr ⟨token, ?_⟩)
      rw [hw]
      exact List.mem_singleton.mpr rfl
  | reminded token now hw =>
      refine Or.inr (Or.inr ⟨token, ?_⟩)
      rw [hw]
      exact List.mem_singleton.mpr rfl

theorem turns_commit {w : World} {write : Write} {k : Kont} (h : Turns w)
    (hwrite : WriteTurns w write k) : Turns (w.commit write k) where
  ids := write_ids h.ids
  turn := by
    intro r' hr' hrole hinvited
    obtain ⟨r, hr, rfl⟩ := exists_of_mem_write hr'
    rw [onRecipient_role] at hrole
    rw [onRecipient_routingOrder]
    rcases turn_of_onRecipient hinvited with hold | hactivated | ⟨token, hlink⟩
    · exact (h.turn r hr hrole hold).commit write k
    · exact (hwrite.activates r.id hactivated r hr rfl).commit write k
    · exact (hwrite.links r.id token hlink r hr rfl).commit write k
  signed := by
    intro r' hr' hcompleted
    obtain ⟨r, hr, rfl⟩ := exists_of_mem_write hr'
    rw [onRecipient_id]
    exact signed_of_completed h.ids hr hwrite.claim (h.signed r hr) hcompleted

/-! ## A transaction that gets ready -/

/-- The turn of the next group has come. -/
theorem Turns.ready_of_handOff {w : World} (h : Turns w) {group : List Recipient}
    (hgroup : advanceEnvelope w.db = .handOff group) {r : Recipient} (hr : r ∈ group) :
    Ready w r.id := by
  obtain ⟨_, order, _, _, _, hmembers, _, _, hearlier⟩ := advanceEnvelope_handOff hgroup
  intro q hq hid p hp hrole hlt
  have hmem := mem_of_handOff hgroup hr
  rw [eq_of_key_eq h.ids hq hmem hid] at hlt
  rw [hmembers, List.mem_filter] at hr
  have horder : r.routingOrder = order := by simpa using (Bool.and_eq_true_iff.mp hr.2).2
  exact h.signed p hp (hearlier p hp hrole (horder ▸ hlt))

theorem Turns.ready_of_mem {w : World} (h : Turns w) {r : Recipient} (hr : r ∈ w.db.recipients)
    (hrole : r.role = .signer) (hinvited : r.status ≠ .pending ∨ r.signingTokenHash ≠ none) :
    Ready w r.id := by
  intro q hq hid
  rw [eq_of_key_eq h.ids hq hr hid]
  exact h.turn r hr hrole hinvited

theorem ProcTurns.ready {cfg : Config} {w w' : World} {l l' : Proc} (hw : Turns w)
    (h : ProcTurns w l) (hready : Readies cfg w l w' l') : ProcTurns w l' where
  pending write k hl := by
    have hprep := hready.pending write k hl
    refine ⟨fun id token hlink => ?_, fun id hid => ?_, fun id hash data hclaim => ?_⟩
    · obtain ⟨-, -, hfor⟩ := hprep.link hlink
      cases hfor with
      | handOff group r hgroup hr hid hrole =>
          rw [← hid]
          exact hw.ready_of_handOff hgroup hr
      | resend r hr hid hrole hpending =>
          rw [← hid]
          exact hw.ready_of_mem hr hrole (Or.inl hpending)
      | remind hdue => exact h.due id hdue
    · obtain ⟨group, hgroup, r, hr, rfl, -⟩ := hprep.activate hid
      exact hw.ready_of_handOff hgroup hr
    · rw [hclaim] at hprep
      obtain ⟨token, -, -, -, -, -, -, -, documentName, now, hk⟩ := hprep.claim
      exact ⟨token, documentName, now, hk⟩
  due id hid := by
    rcases hready.due id hid with hold | hfound
    · exact h.due id hold
    · obtain ⟨r, hr, rfl, hrole, -, hhash⟩ := mem_findRecipientsToRemind hfound
      refine hw.ready_of_mem hr hrole (Or.inr ?_)
      intro hnone
      rw [hnone] at hhash
      cases hhash

theorem turnsOutline (cfg : Config) (ok : System World Proc → Label Choice Event → Prop) :
    ProofOutline (service cfg) ok Turns (fun w _ l => ProcTurns w l) (fun _ _ => True) where
  act := by
    intro s p c sh l hs _ hact
    rcases act_spec (p := p) hact with ⟨write, k, hl, -, rfl, rfl⟩ | hready
    · have hown := hs.proc p
      rw [hl] at hown
      exact ⟨turns_commit hs.shared (hown.pending write k rfl), (hown.after k).commit write k,
        fun q _ => (hs.proc q).commit write k, fun _ _ => ⟨trivial, trivial⟩⟩
    · exact ⟨hs.shared.same hready.same,
        (ProcTurns.ready hs.shared (hs.proc p) hready).same hready.same,
        fun q _ => (hs.proc q).same hready.same, fun _ _ => ⟨trivial, trivial⟩⟩
  env := by
    intro s e sh hs _ henv
    have hsame := env_spec henv
    exact ⟨hs.shared.same hsame, fun q => (hs.proc q).same hsame⟩

/-! ## Every run -/

/-- In sequential routing a send invites nobody who has a signer before them. -/
theorem turnsHolds_start {input : SendRequest} {s : Sending} (h : NewEnvelope input s.minted s.db)
    (hmode : input.routingMode = .sequential) (now : Int) :
    Holds Turns (fun w _ l => ProcTurns w l) (fun _ _ => True) (start s now) where
  shared :=
    { ids := h.ids
      turn := by
        intro r hr hrole hinvited q hq hqrole hlt
        have hi : Invited input r := by
          by_contra hnot
          obtain ⟨hpending, hnone⟩ := h.waiting r hr hnot
          rcases hinvited with hstatus | hhash
          · exact hstatus hpending
          · exact hhash hnone
        -- The invited group has the lowest order of all.
        have hfirst : (input.recipients.map SendRecipient.routingOrder).min? = some r.routingOrder := by
          have hnow := hi.2
          unfold invitedNow at hnow
          rw [hmode] at hnow
          simpa using hnow
        have hmem : (q.role, q.routingOrder) ∈
            s.db.recipients.map fun r => (r.role, r.routingOrder) := List.mem_map_of_mem hq
        rw [h.turns] at hmem
        obtain ⟨x, hx, hxq⟩ := List.mem_map.mp hmem
        have hle := (List.min?_eq_some_iff.mp hfirst).2 x.routingOrder (List.mem_map_of_mem hx)
        have horder : x.routingOrder = q.routingOrder := (Prod.mk.inj hxq).2
        omega
      signed := by
        intro r hr hcompleted
        by_cases hi : Invited input r
        · rw [(h.invited r hr hi).1] at hcompleted
          cases hcompleted
        · rw [(h.waiting r hr hi).1] at hcompleted
          cases hcompleted }
  proc p := by
    simp only [start]
    split <;> exact ⟨by simp [Proc.pending], by simp [Proc.due]⟩
  pair _ _ _ := trivial

/-- **Routing order is never jumped.**  Whenever a link is stored for a signer, every signer of a lower
order has made a successful submit, and no transaction about to commit would store one otherwise. -/
theorem routing_order_kept {cfg : Config} {template : Option Template} {input : SendRequest}
    {senderName : Option JsString} {now : Int} {sending : Sending}
    (hinput : SendRequestSchema cfg.platform input = true)
    (hsend : send cfg template input senderName now = .ok sending)
    (hmode : input.routingMode = .sequential) {s : System World Proc}
    (hs : Reaches (service cfg) (fun _ _ => True) (start sending now) s) :
    (∀ r ∈ s.shared.db.recipients, r.role = .signer → r.signingTokenHash ≠ none →
      ∀ q ∈ s.shared.db.recipients, q.role = .signer → q.routingOrder < r.routingOrder →
        Signed s.shared q.id) ∧
    ∀ p write k, s.procs p = .writing write k → ∀ id token, (id, token) ∈ write.links →
      ∀ r ∈ s.shared.db.recipients, r.id = id →
        ∀ q ∈ s.shared.db.recipients, q.role = .signer → q.routingOrder < r.routingOrder →
          Signed s.shared q.id := by
  have hholds := (turnsOutline cfg _).holds_of_reaches hs
    (turnsHolds_start (send_spec hinput hsend) hmode now)
  constructor
  · intro r hr hrole hhash
    exact hholds.shared.turn r hr hrole (Or.inr hhash)
  · intro p write k hl id token hlink
    have hpending : (s.procs p).pending = some (write, k) := by
      rw [hl]
      rfl
    exact ((hholds.proc p).pending write k hpending).links id token hlink

/-- Two signers one after the other: the second holds a link once the first has signed. -/
theorem routing_order_kept_two :
    let input := exampleInput .sequential [exampleRecipient "a" .signer 1, exampleRecipient "b" .signer 2]
    ∃ s, replay exampleConfig exampleTemplate input 0
        (exampleConsent 1 0 ++ exampleClaim 2 0 ++ List.replicate 2 (.proc 2 .next)) = some s ∧
      (s.shared.db.recipients.map Recipient.signingTokenHash) =
        [some (.sha256 0), some (.sha256 1)] ∧
      ∀ r ∈ s.shared.db.recipients, r.role = .signer → r.signingTokenHash ≠ none →
        ∀ q ∈ s.shared.db.recipients, q.role = .signer → q.routingOrder < r.routingOrder →
          Signed s.shared q.id := by
  intro input
  have hrun : (replay exampleConfig exampleTemplate input 0
      (exampleConsent 1 0 ++ exampleClaim 2 0 ++ List.replicate 2 (.proc 2 .next))).map (fun s =>
        s.shared.db.recipients.map Recipient.signingTokenHash) =
      some [some (.sha256 0), some (.sha256 1)] := by
    decide +kernel
  obtain ⟨s, hs, hlinks⟩ := Option.map_eq_some_iff.mp hrun
  obtain ⟨sending, hsend, hreaches⟩ := replay_spec hs
  exact ⟨s, hs, hlinks, (routing_order_kept (by decide +kernel) hsend rfl hreaches).1⟩

end ESignSoft.Envelope
