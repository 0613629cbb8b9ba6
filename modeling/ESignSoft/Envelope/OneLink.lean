import ESignSoft.Envelope.VoidFinal

/-!
# One live link for each recipient

A link resolves to the recipient whose row holds its hash and, where there is none, to the envelope whose
own row does.  The rows of a send never have a hash of the envelope's own.  The envelopes from before
routing do: the migration copied it to the recipient it made of them, and left it where it was.  As long
as the recipient holds it too, the copy decides.

* `one_live_link` — in the runs in which no recipient of an open envelope loses the link that the
  envelope's own row still has, a link opens the ceremony of the recipient whose row holds it, or none;
  once replaced, it is dead for good;
* `old_link_lives` — the first resend on an envelope from before routing leaves two links alive.
-/

namespace ESignSoft.Envelope

open ESignSoft.Lib.JsText ESignSoft.Lib.Table ESignSoft.Lib.Interleaving
open ESignSoft.Contracts ESignSoft.Signing

/-! ## The door, at one moment -/

/-- `loadForToken`, with nothing happening between its reads. -/
def loadForToken (db : Db) (now : Int) (token : Nat) : Option LoadedRequest :=
  match resolve db (.sha256 token) with
  | none => none
  | some recipientId =>
      match db.request with
      | none => none
      | some row =>
          if row.expiresAt ≤ now then none
          else if row.status = .voided then none
          else
            match recipientId with
            | some id =>
                match db.findRecipient id with
                | none => none
                | some rc =>
                    if rc.signingTokenHash = some (.sha256 token) ∧ rc.open_ = true then
                      some (.ofRecipient row rc (.sha256 token))
                    else none
            | none =>
                if row.signingTokenHash = some (.sha256 token) ∧ row.open_ = true then
                  some (.ofLegacy row (.sha256 token))
                else none

theorem loadForToken_spec {db : Db} {now : Int} {token : Nat} {req : LoadedRequest}
    (h : loadForToken db now token = some req) :
    ∃ row, db.request = some row ∧ ¬ row.expiresAt ≤ now ∧ row.status ≠ .voided ∧
      ((∃ id rc, resolve db (.sha256 token) = some (some id) ∧ db.findRecipient id = some rc ∧
          rc.signingTokenHash = some (.sha256 token) ∧ rc.open_ = true ∧
          req = .ofRecipient row rc (.sha256 token)) ∨
        (resolve db (.sha256 token) = some none ∧ row.signingTokenHash = some (.sha256 token) ∧
          row.open_ = true ∧ req = .ofLegacy row (.sha256 token))) := by
  unfold loadForToken at h
  split at h
  · cases h
  · rename_i recipientId hresolve
    split at h
    · cases h
    · rename_i row hrow
      split at h
      · cases h
      · rename_i hlive
        split at h
        · cases h
        · rename_i hvoided
          refine ⟨row, hrow, hlive, hvoided, ?_⟩
          split at h
          · rename_i id
            split at h
            · cases h
            · rename_i rc hrc
              split at h
              · rename_i hopen
                exact Or.inl ⟨id, rc, hresolve, hrc, hopen.1, hopen.2, (Option.some.inj h).symm⟩
              · cases h
          · split at h
            · rename_i hopen
              exact Or.inr ⟨hresolve, hopen.1, hopen.2, (Option.some.inj h).symm⟩
            · cases h

/-- A visit whose reads find the rows as they are gets what `loadForToken` says. -/
theorem next_loads {cfg : Config} {w : World} {token : Nat} {req : LoadedRequest} (visit : Visit)
    (h : loadForToken w.db w.now token = some req) :
    ∃ l, next cfg w (.resolving token visit) = some (w, l) ∧
      (next cfg w l = some (w, .loaded token visit req) ∨
        ∃ l', next cfg w l = some (w, l') ∧ next cfg w l' = some (w, .loaded token visit req)) := by
  obtain ⟨row, hrow, hlive, hvoided, ⟨id, rc, hresolve, hrc, hhash, hopen, rfl⟩ |
    ⟨hresolve, hhash, hopen, rfl⟩⟩ := loadForToken_spec h
  · refine ⟨.requestReading token visit (some id), by simp only [next, hresolve], Or.inr
      ⟨.recipientReading token visit id row, ?_, ?_⟩⟩
    · simp only [next, hrow, hlive, hvoided, if_false]
    · simp only [next, hrc, hhash, hopen, and_self, if_true]
  · refine ⟨.requestReading token visit none, by simp only [next, hresolve], Or.inl ?_⟩
    simp only [next, hrow, hlive, hvoided, hhash, hopen, and_self, if_true, if_false]

/-! ## Envelopes from before routing -/

/-- The recipient that the migration makes of an envelope. -/
def backfilled (row : SignatureRequest) (id : Nat) : Recipient where
  id := id
  email := row.recipientEmail
  name := row.recipientName
  role := .signer
  routingOrder := 1
  recipientKey := js "signer"
  status :=
    match row.status with
    | .completed => .completed
    | .viewed => .viewed
    | .voided => .pending
    | _ => .sent
  signingTokenHash := row.signingTokenHash
  sentAt := some row.sentAt
  viewedAt := row.viewedAt
  consentAt := row.consentAt
  completedAt := row.completedAt
  lastRemindedAt := none
  reminderCount := 0
  signatureMethod := row.signatureMethod
  signatureImageKey := row.signatureImageKey
  fieldValues := row.fieldValues
  viewedIp := row.viewedIp
  viewedUserAgent := row.viewedUserAgent
  signerIp := row.signerIp
  signerUserAgent := row.signerUserAgent

/-- Such an envelope after the migration, with the tokens and the storage keys drawn by then. -/
def carriedOver (row : SignatureRequest) (id minted images : Nat) (now : Int) : System World Proc where
  shared :=
    { now := now
      db := { request := some row, recipients := [backfilled row id] }
      queue := { present := [], accepted := [] }
      mailed := []
      minted := minted
      images := images
      signings := [] }
  procs := fun _ => .idle

/-- How an envelope comes about. -/
inductive Begins (cfg : Config) : System World Proc → Prop
  | sent {template : Option Template} {input : SendRequest} {senderName : Option JsString} {now : Int}
      {sending : Sending} (hinput : SendRequestSchema cfg.platform input = true)
      (hsend : send cfg template input senderName now = .ok sending) : Begins cfg (start sending now)
  | carriedOver {row : SignatureRequest} {id minted images : Nat} {now : Int}
      (hminted : ∀ t, row.signingTokenHash = some (.sha256 t) → t < minted) :
      Begins cfg (carriedOver row id minted images now)

/-! ## The envelope's own link -/

/-- The transaction takes a recipient's link away while the envelope's own row, still open, has it. -/
def revives (db : Db) (write : Write) : Bool :=
  db.request.any fun row => row.signingTokenHash.isSome && (write.onRequest row).open_ &&
    db.recipients.any fun r => r.signingTokenHash == row.signingTokenHash &&
      (write.onRecipient r).signingTokenHash != r.signingTokenHash

/-- The step commits no such transaction. -/
def keepsOwnLink (s : System World Proc) (l : Label Choice Event) : Bool :=
  match l with
  | .proc p .next =>
      match s.procs p with
      | .writing write _ => !revives s.shared.db write
      | _ => true
  | _ => true

theorem keepsOwnLink_commit {s : System World Proc} {p : Nat} {write : Write} {k : Kont}
    (hl : s.procs p = .writing write k) (h : keepsOwnLink s (.proc p .next) = true) :
    revives s.shared.db write = false := by
  simpa only [keepsOwnLink, hl, Bool.not_eq_true'] using h

/-! ## Every run -/

/-- Every link stands in one row, and one that an open envelope has itself in a recipient's. -/
structure OneLink (w : World) : Prop where
  minted : ∀ r ∈ w.db.recipients, ∀ t, r.signingTokenHash = some (.sha256 t) → t < w.minted
  distinct : w.db.Distinct
  ids : (w.db.recipients.map Recipient.id).Nodup
  own : ∀ row, w.db.request = some row → row.open_ = true → row.signingTokenHash ≠ none →
    ∃ r ∈ w.db.recipients, r.signingTokenHash = row.signingTokenHash

/-- The links a process is about to store are new, each for one recipient. -/
structure NewLinks (w : World) (l : Proc) : Prop where
  waits : ∀ write k, l.pending = some (write, k) → ∀ id t, (id, t) ∈ write.links → Waits w t
  one : ∀ write k, l.pending = some (write, k) → ∀ id id' t, (id, t) ∈ write.links →
    (id', t) ∈ write.links → id = id'

theorem OneLink.commit {w : World} {write : Write} {k : Kont} (h : OneLink w)
    (hown : NewLinks w (.writing write k)) (hkeeps : revives w.db write = false) :
    OneLink (w.commit write k) where
  minted := by
    intro r' hr' t ht
    rcases stored_of_write hr' ht with ⟨r, hr, hhash⟩ | hlink
    · exact h.minted r hr t hhash
    · exact (hown.waits write k rfl _ _ hlink).1
  distinct := h.distinct.write (fun id t hlink => (hown.waits write k rfl id t hlink).2) (hown.one write k rfl)
  ids := write_ids h.ids
  own := by
    intro row' hrow' hopen hsome
    obtain ⟨row, hrow, rfl⟩ := exists_of_write_request hrow'
    rw [onRequest_signingTokenHash] at hsome ⊢
    obtain ⟨r, hr, hhash⟩ := h.own row hrow (open_of_onRequest hopen) hsome
    have hwrite : write ≠ .deleted := by
      rintro rfl
      cases hrow'
    refine ⟨write.onRecipient r, mem_write hwrite hr, ?_⟩
    -- Otherwise the transaction would revive the envelope's own link.
    by_contra hlost
    have hrevives : revives w.db write = true := by
      unfold revives
      rw [hrow, Option.any_some, Bool.and_eq_true, Bool.and_eq_true]
      refine ⟨⟨Option.isSome_iff_ne_none.mpr hsome, hopen⟩, List.any_eq_true.mpr ⟨r, hr, ?_⟩⟩
      rw [Bool.and_eq_true, beq_iff_eq, bne_iff_ne, hhash]
      exact ⟨rfl, hlost⟩
    rw [hkeeps] at hrevives
    cases hrevives

theorem OneLink.same {w w' : World} (h : OneLink w) (hsame : SameRows w w') : OneLink w' where
  minted r hr t ht := by
    rw [hsame.db] at hr
    exact lt_of_lt_of_le (h.minted r hr t ht) hsame.minted
  distinct := by
    rw [hsame.db]
    exact h.distinct
  ids := by
    rw [hsame.db]
    exact h.ids
  own := by
    rw [hsame.db]
    exact h.own

theorem NewLinks.same {w w' : World} {l : Proc} (h : NewLinks w l) (hsame : SameRows w w') : NewLinks w' l where
  waits write k hl id t hlink := (h.waits write k hl id t hlink).same hsame
  one := h.one

theorem NewLinks.commit {w : World} {l : Proc} (h : NewLinks w l) {write : Write} {k : Kont}
    (hother : Apart (.writing write k) l) : NewLinks (w.commit write k) l where
  waits write' k' hl id t hlink := by
    obtain ⟨hminted, hstored⟩ := h.waits write' k' hl id t hlink
    refine ⟨hminted, fun r' hr' hhash' => ?_⟩
    rcases stored_of_write hr' hhash' with ⟨r, hr, hhash⟩ | hlink'
    · exact hstored r hr hhash
    · exact hother write k write' k' rfl hl _ _ t hlink' hlink
  one := h.one

theorem NewLinks.ready {cfg : Config} {w w' : World} {l l' : Proc} (hw : OneLink w)
    (hready : Readies cfg w l w' l') : NewLinks w' l' where
  waits write k hl id t hlink := by
    obtain ⟨hge, hlt, -⟩ := (hready.pending write k hl).link hlink
    refine ⟨hlt, ?_⟩
    rw [hready.same.db]
    intro r hr hstored
    have := hw.minted r hr t hstored
    omega
  one write k hl _ _ _ hlink hlink' := (hready.pending write k hl).link_inj hlink hlink'

theorem oneLinkOutline (cfg : Config) :
    ProofOutline (service cfg) (fun s l => keepsOwnLink s l = true) OneLink (fun w _ l => NewLinks w l)
      Apart where
  act := by
    intro s p c sh l hs hkeeps hact
    rcases act_spec (p := p) hact with ⟨write, k, hl, rfl, rfl, rfl⟩ | hready
    · have hown := hs.proc p
      rw [hl] at hown
      refine ⟨hs.shared.commit hown (keepsOwnLink_commit hl hkeeps), ?_, fun q hq => ?_,
        fun q _ => apart_after k write _ _⟩
      · exact ⟨by simp [Kont.pending_after], by simp [Kont.pending_after]⟩
      · have hother := hs.pair p q hq.symm
        rw [hl] at hother
        exact (hs.proc q).commit hother
    · exact ⟨hs.shared.same hready.same, NewLinks.ready hs.shared hready,
        fun q _ => (hs.proc q).same hready.same, fun q _ => apart_of_ready hready
          fun write k hl id t hlink => ((hs.proc q).waits write k hl id t hlink).1⟩
  env := by
    rintro s e sh hs - henv
    have hsame := env_spec henv
    exact ⟨hs.shared.same hsame, fun q => (hs.proc q).same hsame⟩

theorem oneLinkHolds_start {cfg : Config} {s : System World Proc} (h : Begins cfg s) :
    Holds OneLink (fun w _ l => NewLinks w l) Apart s := by
  cases h with
  | @sent template input senderName now sending hinput hsend =>
      have hnew := send_spec hinput hsend
      have hlinks := linksHolds_start hnew now
      refine ⟨⟨hlinks.shared.minted, hlinks.shared.distinct, hnew.ids, ?_⟩, fun p => ?_, ?_⟩
      · intro row hrow _ hsome
        exact absurd (hlinks.shared.legacy row hrow) hsome
      · simp only [start]
        split <;> exact ⟨by simp [Proc.pending], by simp [Proc.pending]⟩
      · intro p q _ write k _ _ hl
        simp only [start] at hl
        split at hl <;> cases hl
  | @carriedOver row id minted images now hminted =>
      refine ⟨⟨?_, ?_, List.nodup_singleton _, ?_⟩, fun p => ?_, ?_⟩
      · intro r hr t ht
        obtain rfl := List.mem_singleton.mp hr
        exact hminted t ht
      · intro r hr q hq _ _
        rw [List.mem_singleton.mp hr, List.mem_singleton.mp hq]
      · intro row' hrow' _ _
        obtain rfl := Option.some.inj hrow'
        exact ⟨backfilled row id, List.mem_singleton_self _, rfl⟩
      · exact ⟨by simp [carriedOver, Proc.pending], by simp [carriedOver, Proc.pending]⟩
      · intro p q _ write k _ _ hl
        cases hl

/-- The link is held by these recipients only, and nobody is about to store it. -/
structure HeldBy (t : Nat) (who : Nat → Prop) (s : System World Proc) : Prop where
  minted : t < s.shared.minted
  rows : ∀ r ∈ s.shared.db.recipients, r.signingTokenHash = some (.sha256 t) → who r.id
  pending : ∀ p write k, (s.procs p).pending = some (write, k) → ∀ id, (id, t) ∉ write.links

theorem heldBy_step {cfg : Config} {t : Nat} {who : Nat → Prop} {s s' : System World Proc}
    {l : Label Choice Event} (h : HeldBy t who s) (hstep : (service cfg).step s l = some s') :
    HeldBy t who s' := by
  cases l with
  | env e =>
      obtain ⟨sh, henv, rfl⟩ := Program.step_env hstep
      have hsame := env_spec henv
      refine ⟨lt_of_lt_of_le h.minted hsame.minted, ?_, h.pending⟩
      rw [hsame.db]
      exact h.rows
  | proc p c =>
      obtain ⟨sh, l', hact, rfl⟩ := Program.step_proc hstep
      rcases act_spec (p := p) hact with ⟨write, k, hl, -, rfl, rfl⟩ | hready
      · refine ⟨h.minted, fun r' hr' hhash => ?_, fun q write' k' hq id => ?_⟩
        · obtain ⟨r, hr, rfl⟩ := exists_of_mem_write hr'
          rw [onRecipient_id]
          rcases onRecipient_hash write r with hsame | hnone | ⟨token, hlink, hnew⟩
          · exact h.rows r hr (hsame.symm.trans hhash)
          · rw [hnone] at hhash
            cases hhash
          · rw [hnew] at hhash
            obtain rfl := TokenHash.sha256.inj (Option.some.inj hhash)
            exact absurd hlink (h.pending p write k (by rw [hl]; rfl) _)
        · by_cases hqp : q = p
          · subst hqp
            simp only [Function.update_self, Kont.pending_after] at hq
            cases hq
          · simp only [ne_eq, hqp, not_false_eq_true, Function.update_of_ne] at hq
            exact h.pending q write' k' hq id
      · refine ⟨lt_of_lt_of_le h.minted hready.same.minted, ?_, fun q write' k' hq id hlink => ?_⟩
        · rw [hready.same.db]
          exact h.rows
        · by_cases hqp : q = p
          · subst hqp
            simp only [Function.update_self] at hq
            obtain ⟨hge, -, -⟩ := (hready.pending write' k' hq).link hlink
            have := h.minted
            omega
          · simp only [ne_eq, hqp, not_false_eq_true, Function.update_of_ne] at hq
            exact h.pending q write' k' hq id hlink

theorem heldBy_of_reaches {cfg : Config} {ok : System World Proc → Label Choice Event → Prop} {t : Nat}
    {who : Nat → Prop} {s s' : System World Proc} (h : HeldBy t who s) (hs : Reaches (service cfg) ok s s') :
    HeldBy t who s' :=
  Reaches.invariant (I := HeldBy t who) (fun _ _ _ ha _ hstep => heldBy_step ha hstep) hs h

/-- A link opens the ceremony of the recipient whose row holds it, while it is theirs to sign. -/
theorem OneLink.loads {w : World} (h : OneLink w) {token : Nat} {req : LoadedRequest}
    (hload : loadForToken w.db w.now token = some req) :
    ∃ r ∈ w.db.recipients, r.signingTokenHash = some (.sha256 token) ∧ req.recipientId = some r.id ∧
      r.open_ = true := by
  obtain ⟨row, hrow, -, -, ⟨id, rc, -, hrc, hhash, hopen, rfl⟩ | ⟨hresolve, hhash, hopen, -⟩⟩ :=
    loadForToken_spec hload
  · exact ⟨rc, (Db.findRecipient_mem hrc).1, hhash, rfl, hopen⟩
  · -- The copy in a recipient's row would have decided.
    obtain ⟨r, hr, hcopy⟩ := h.own row hrow hopen (by rw [hhash]; simp)
    unfold resolve at hresolve
    split at hresolve
    · cases hresolve
    · rename_i hnone
      have hnot := List.find?_eq_none.mp hnone r hr
      rw [hcopy, hhash] at hnot
      simp at hnot

/-- **At most one live link per recipient**, in the runs in which no recipient of an open envelope loses
the link that the envelope's own row still has. -/
theorem one_live_link {cfg : Config} {s₀ s : System World Proc} (h₀ : Begins cfg s₀)
    (hs : Reaches (service cfg) (fun s l => keepsOwnLink s l = true) s₀ s) :
    (∀ token req, loadForToken s.shared.db s.shared.now token = some req →
      (∃ r ∈ s.shared.db.recipients, r.signingTokenHash = some (.sha256 token) ∧
        req.recipientId = some r.id ∧ r.open_ = true) ∧
      ∀ row, s.shared.db.request = some row → row.status ≠ .voided) ∧
    ∀ r ∈ s.shared.db.recipients, ∀ token, r.signingTokenHash = some (.sha256 token) →
      ∀ s', Reaches (service cfg) (fun s l => keepsOwnLink s l = true) s s' →
      (∀ r' ∈ s'.shared.db.recipients, r'.id = r.id → r'.signingTokenHash ≠ some (.sha256 token)) →
      ∀ s'', Reaches (service cfg) (fun s l => keepsOwnLink s l = true) s' s'' →
        loadForToken s''.shared.db s''.shared.now token = none := by
  have hholds := (oneLinkOutline cfg).holds_of_reaches hs (oneLinkHolds_start h₀)
  refine ⟨fun token req hload => ⟨hholds.shared.loads hload, ?_⟩, ?_⟩
  · intro row hrow
    obtain ⟨row', hrow', -, hvoided, -⟩ := loadForToken_spec hload
    obtain rfl := Option.some.inj (hrow'.symm.trans hrow)
    exact hvoided
  · intro r hr token hhash s' hs' hreplaced s'' hs''
    have hheld : HeldBy token (· = r.id) s :=
      { minted := hholds.shared.minted r hr token hhash
        rows := fun q hq hqhash =>
          hholds.shared.distinct q hq r hr (hqhash.trans hhash.symm) (by rw [hqhash]; simp)
        pending := fun p write k hl id hlink => ((hholds.proc p).waits write k hl id token hlink).2 r hr hhash }
    have hheld' := heldBy_of_reaches hheld hs'
    -- Nobody holds it any more, and so nobody will.
    have hdead : HeldBy token (fun _ => False) s' :=
      ⟨hheld'.minted, fun q hq hqhash => hreplaced q hq (hheld'.rows q hq hqhash) hqhash, hheld'.pending⟩
    have hdead' := heldBy_of_reaches hdead hs''
    have hholds'' := (oneLinkOutline cfg).holds_of_reaches ((hs.trans hs').trans hs'') (oneLinkHolds_start h₀)
    by_contra hsome
    obtain ⟨req, hload⟩ := Option.ne_none_iff_exists'.mp hsome
    obtain ⟨q, hq, hqhash, -⟩ := hholds''.shared.loads hload
    exact hdead'.rows q hq hqhash

/-- A link that is sent again, and agreed to with the new one. -/
theorem one_live_link_resent :
    let input := exampleInput .parallel [exampleRecipient "a" .signer 1]
    let resending := .env (.clock 90000) :: exampleCall 2 (.resend 0) 3
    ∃ s s', replayIf keepsOwnLink exampleConfig exampleTemplate input 0 (exampleConsent 1 0) = some s ∧
      (service exampleConfig).runIf keepsOwnLink s resending = some s' ∧
      loadForToken s'.shared.db s'.shared.now 0 = none ∧
      (loadForToken s'.shared.db s'.shared.now 1).isSome = true := by
  intro input resending
  have hrun : ((replayIf keepsOwnLink exampleConfig exampleTemplate input 0 (exampleConsent 1 0)).bind fun s =>
      ((service exampleConfig).runIf keepsOwnLink s resending).map fun s' =>
        (s.shared.db.recipients.map Recipient.signingTokenHash,
          s'.shared.db.recipients.map Recipient.signingTokenHash,
          (loadForToken s'.shared.db s'.shared.now 1).isSome)) =
      some ([some (.sha256 0)], [some (.sha256 1)], true) := by
    decide +kernel
  obtain ⟨s, hs, hrest⟩ := Option.bind_eq_some_iff.mp hrun
  obtain ⟨s', hs', heq⟩ := Option.map_eq_some_iff.mp hrest
  simp only [Prod.mk.injEq] at heq
  obtain ⟨hbefore, hafter, hopens⟩ := heq
  obtain ⟨r, hrows, hhash⟩ := List.map_eq_singleton_iff.mp hbefore
  obtain ⟨r', hrows', hhash'⟩ := List.map_eq_singleton_iff.mp hafter
  obtain ⟨sending, hsend, hreaches⟩ := replayIf_spec hs
  refine ⟨s, s', hs, hs', (one_live_link (Begins.sent (by decide +kernel) hsend) hreaches).2 r
    (by simp [hrows]) 0 hhash s' (Reaches.of_runIf hs') ?_ s' (Reaches.refl s'), hopens⟩
  intro q hq _ hqhash
  rw [hrows'] at hq
  obtain rfl := List.mem_singleton.mp hq
  rw [hhash'] at hqhash
  cases hqhash

/-- An envelope from before routing, sent with token 0. -/
def legacyRequest : SignatureRequest :=
  { newRequest exampleConfig exampleTemplate (exampleInput .parallel []) none
      (exampleRecipient "signer" .signer 1) 0 with
    signingTokenHash := some (.sha256 0) }

/-- The link is sent again: the old one opens as well as the new one, and goes on to sign. -/
theorem old_link_lives :
    (((service exampleConfig).run (carriedOver legacyRequest 0 1 0 0)
      (.env (.clock 90000) :: exampleCall 1 (.resend 0) 3)).map fun s =>
        (s.shared.db.recipients.map Recipient.signingTokenHash,
          (loadForToken s.shared.db s.shared.now 0).isSome,
          (loadForToken s.shared.db s.shared.now 1).isSome)) = some ([some (.sha256 1)], true, true) ∧
    (((service exampleConfig).run (carriedOver legacyRequest 0 1 0 0)
      (.env (.clock 90000) :: exampleCall 1 (.resend 0) 3 ++ exampleCall 2 (.visit 0 .consent) 4 ++
        exampleCall 3 (.visit 0 (.submit exampleSignature none none)) 4)).map fun s =>
          (s.shared.db.request.map SignatureRequest.status, s.shared.signings.map Signing.token)) =
      some (some .completed, [0]) := by
  decide +kernel

end ESignSoft.Envelope
