import ESignSoft.Envelope.SingleUse

/-!
# Void is final

A claim looks at the recipient's row alone, so that what keeps a voided envelope unsigned is that its
links are dead: `void` clears them, a link stored later is one nobody had loaded, and nobody loads one
any more.

The clearing passes over whoever has completed by then.  A resend that read the recipient before writes
its row whatever it has become, so that somebody passed over may be open again, with a new link, when
`void` commits.

* `next_presented` and `next_token` — where a process has a token from;
* `voided_is_final` — in the runs where no submit has loaded such a link by the commit of a void
  (`Outlives`), the envelope stays voided and nobody signs it;
* `signs_of_outlives` and `signed_after_void` — where a submit has, its claim goes through; and a run in
  which that happens.
-/

namespace ESignSoft.Envelope

open ESignSoft.Lib.JsText ESignSoft.Lib.Table ESignSoft.Lib.Interleaving
open ESignSoft.Contracts ESignSoft.Signing

/-! ## Tokens in hand -/

/-- The token a visit goes on with once it was resolved. -/
def Proc.token : Proc → Option Nat
  | .requestReading token _ _ => some token
  | .recipientReading token _ _ _ => some token
  | .loaded token _ _ => some token
  | .writing (.claimed _ (.sha256 token) _) _ => some token
  | _ => none

/-- The token of a submit that has read the envelope. -/
def Proc.presented : Proc → Option Nat
  | .recipientReading token (.submit ..) _ _ => some token
  | .loaded token (.submit ..) _ => some token
  | .writing (.claimed _ (.sha256 token) _) _ => some token
  | _ => none

theorem Proc.token_of_presented {l : Proc} {t : Nat} (h : l.presented = some t) : l.token = some t := by
  unfold Proc.presented at h
  split at h
  · exact h
  · exact h
  · exact h
  · cases h

theorem Kont.token_after (k : Kont) (w : Write) (db : Db) : (k.after w db).token = none := by
  have hfollows := k.follows_after w db
  generalize k.after w db = l at hfollows ⊢
  cases hfollows <;> rfl

/-- Nothing but a claim that gets ready has a token. -/
theorem LoadedRequest.token_viewWrite (req : LoadedRequest) (now : Int) (ip ua : Option JsString) (k : Kont) :
    (Proc.writing (req.viewWrite now ip ua) k).token = none := by
  unfold LoadedRequest.viewWrite
  split <;> rfl

theorem LoadedRequest.token_consentWrite (req : LoadedRequest) (now : Int) (k : Kont) :
    (Proc.writing (req.consentWrite now) k).token = none := by
  unfold LoadedRequest.consentWrite
  split <;> rfl

theorem LoadedRequest.token_claimWrite {req : LoadedRequest} {data : ClaimData} {k : Kont} {t : Nat}
    (h : (Proc.writing (req.claimWrite data) k).token = some t) : req.signingTokenHash = .sha256 t := by
  unfold LoadedRequest.claimWrite at h
  split at h
  · generalize req.signingTokenHash = hash at h
    cases hash with
    | sha256 token =>
        obtain rfl : token = t := Option.some.inj h
        rfl
  · cases h

/-- What was loaded is presented under the token it was loaded with. -/
def Proc.Consistent (l : Proc) : Prop :=
  ∀ token visit req, l = .loaded token visit req → req.signingTokenHash = .sha256 token

/-- A process has its token from before, or resolved one that is stored. -/
theorem next_token {cfg : Config} {w w' : World} {l l' : Proc} (h : Next cfg w l w' l')
    (hl : l.Consistent) {t : Nat} (ht : l'.token = some t) :
    l.token = some t ∨ ∃ recipientId, resolve w.db (.sha256 t) = some recipientId := by
  cases h with
  | resolved token visit recipientId hfound =>
      obtain rfl : token = t := Option.some.inj ht
      exact Or.inr ⟨recipientId, hfound⟩
  | foundRequest token visit id row hrow hlive hvoided => exact Or.inl ht
  | loadedLegacy token visit row hrow hhash => exact Or.inl ht
  | loaded token visit id row rc hrc hhash hopen => exact Or.inl ht
  | viewing token ip ua req hviewed =>
      rw [LoadedRequest.token_viewWrite] at ht
      cases ht
  | consenting token req hconsent =>
      rw [LoadedRequest.token_consentWrite] at ht
      cases ht
  | claiming token dto ip ua req data hdata =>
      have hhash := LoadedRequest.token_claimWrite ht
      rw [hl token _ req rfl] at hhash
      obtain rfl := TokenHash.sha256.inj hhash
      exact Or.inl rfl
  | commit write k =>
      rw [Kont.token_after] at ht
      cases ht
  | _ => cases ht

/-- A submit has read the envelope before, or it reads one that is not voided. -/
theorem next_presented {cfg : Config} {w w' : World} {l l' : Proc} (h : Next cfg w l w' l')
    (hl : l.Consistent) (hlegacy : ∀ row, w.db.request = some row → row.signingTokenHash = none) {t : Nat}
    (ht : l'.presented = some t) :
    l.presented = some t ∨ ∃ row, w.db.request = some row ∧ row.status ≠ .voided := by
  cases h with
  | foundRequest token visit id row hrow hlive hvoided => exact Or.inr ⟨row, hrow, hvoided⟩
  | loadedLegacy token visit row hrow hhash =>
      rw [hlegacy row hrow] at hhash
      cases hhash
  | loaded token visit id row rc hrc hhash hopen => exact Or.inl (by cases visit <;> exact ht)
  | viewing token ip ua req hviewed =>
      have htoken := Proc.token_of_presented ht
      rw [LoadedRequest.token_viewWrite] at htoken
      cases htoken
  | consenting token req hconsent =>
      have htoken := Proc.token_of_presented ht
      rw [LoadedRequest.token_consentWrite] at htoken
      cases htoken
  | claiming token dto ip ua req data hdata =>
      have hhash := LoadedRequest.token_claimWrite (Proc.token_of_presented ht)
      rw [hl token _ req rfl] at hhash
      obtain rfl := TokenHash.sha256.inj hhash
      exact Or.inl rfl
  | commit write k =>
      have htoken := Proc.token_of_presented ht
      rw [Kont.token_after] at htoken
      cases htoken
  | _ => cases ht

/-- The step of a process that is not a `Next` leaves it without a token. -/
theorem act_token {cfg : Config} {p : Nat} {c : Choice} {w w' : World} {l l' : Proc}
    (h : act cfg p c w l = some (w', l')) : Next cfg w l w' l' ∨ l'.token = none := by
  rcases act_cases h with ⟨call, -, -, -, rfl⟩ | ⟨-, hnext⟩ | ⟨taken, -, hfail⟩ | ⟨-, -, -, rfl⟩
  · refine Or.inr ?_
    cases call <;> rfl
  · exact Or.inl hnext
  · refine Or.inr ?_
    obtain ⟨-, hcases⟩ := failEnqueue_spec hfail
    rcases hcases with ⟨_, _, rest, -, rfl⟩ | ⟨-, rfl⟩ | ⟨_, rest, -, rfl⟩ | ⟨job, rest, a, -, rfl⟩
    all_goals rfl
  · exact Or.inr rfl

/-! ## A token is stored before anybody presents it -/

/-- The links in the rows were issued, and the envelope has none of its own. -/
structure Issued (w : World) : Prop where
  minted : ∀ r ∈ w.db.recipients, ∀ t, r.signingTokenHash = some (.sha256 t) → t < w.minted
  legacy : ∀ row, w.db.request = some row → row.signingTokenHash = none
  gone : w.db.request = none → w.db.recipients = []

/-- The link waits for its commit: it was issued and stands in no row. -/
def Waits (w : World) (t : Nat) : Prop :=
  t < w.minted ∧ ∀ r ∈ w.db.recipients, r.signingTokenHash ≠ some (.sha256 t)

structure InHand (w : World) (l : Proc) : Prop where
  token : ∀ t, l.token = some t → t < w.minted
  loaded : l.Consistent
  waits : ∀ write k, l.pending = some (write, k) → ∀ id t, (id, t) ∈ write.links → Waits w t

/-- The links the one is about to store are in nobody else's hands. -/
def Unseen (l l' : Proc) : Prop :=
  ∀ write k, l.pending = some (write, k) → ∀ id t, (id, t) ∈ write.links →
    l'.token ≠ some t ∧
      ∀ write' k', l'.pending = some (write', k') → ∀ id', (id', t) ∉ write'.links

theorem Issued.same {w w' : World} (h : Issued w) (hsame : SameRows w w') : Issued w' where
  minted r hr t ht := by
    rw [hsame.db] at hr
    exact lt_of_lt_of_le (h.minted r hr t ht) hsame.minted
  legacy := by
    rw [hsame.db]
    exact h.legacy
  gone := by
    rw [hsame.db]
    exact h.gone

theorem Waits.same {w w' : World} {t : Nat} (h : Waits w t) (hsame : SameRows w w') : Waits w' t := by
  refine ⟨lt_of_lt_of_le h.1 hsame.minted, ?_⟩
  rw [hsame.db]
  exact h.2

theorem InHand.same {w w' : World} {l : Proc} (h : InHand w l) (hsame : SameRows w w') : InHand w' l where
  token t ht := lt_of_lt_of_le (h.token t ht) hsame.minted
  loaded := h.loaded
  waits write k hl id t hlink := (h.waits write k hl id t hlink).same hsame

theorem Issued.commit {w : World} (h : Issued w) {write : Write} {k : Kont}
    (hown : InHand w (.writing write k)) : Issued (w.commit write k) where
  minted := by
    intro r' hr' t ht
    rcases stored_of_write hr' ht with ⟨r, hr, hhash⟩ | hlink
    · exact h.minted r hr t hhash
    · exact (hown.waits write k rfl _ _ hlink).1
  legacy := by
    intro row' hrow'
    obtain ⟨row, hrow, rfl⟩ := exists_of_write_request hrow'
    rw [onRequest_signingTokenHash]
    exact h.legacy row hrow
  gone := by
    intro hnone
    rcases write_recipients write w.db with ⟨hempty, -⟩ | ⟨hmap, hwrite⟩
    · exact hempty
    · cases hrow : w.db.request with
      | none =>
          show (w.db.write write).recipients = []
          rw [hmap, h.gone hrow]
          rfl
      | some row =>
          have hsome := write_request hwrite hrow
          rw [show (w.db.write write).request = none from hnone] at hsome
          cases hsome

/-- A commit stores no link that another process is about to store. -/
theorem InHand.commit {w : World} {l : Proc} (h : InHand w l) {write : Write} {k : Kont}
    (hunseen : Unseen (.writing write k) l) : InHand (w.commit write k) l where
  token := h.token
  loaded := h.loaded
  waits write' k' hl id t hlink := by
    obtain ⟨hminted, hstored⟩ := h.waits write' k' hl id t hlink
    refine ⟨hminted, fun r' hr' hhash' => ?_⟩
    rcases stored_of_write hr' hhash' with ⟨r, hr, hhash⟩ | hlink'
    · exact hstored r hr hhash
    · exact (hunseen write k rfl _ _ hlink').2 write' k' hl _ hlink

theorem InHand.after (w : World) (k : Kont) (write : Write) (db : Db) : InHand w (k.after write db) where
  token t ht := by
    rw [Kont.token_after] at ht
    cases ht
  loaded token visit req hl := absurd hl (k.after_ne_loaded write db token visit req)
  waits write' k' hl := by
    rw [Kont.pending_after] at hl
    cases hl

/-- A token that resolves is one that was issued and that nobody is about to store. -/
theorem resolve_stored {w : World} (hw : Issued w) {t : Nat} {recipientId : Option Nat}
    (h : resolve w.db (.sha256 t) = some recipientId) :
    ∃ r ∈ w.db.recipients, r.signingTokenHash = some (.sha256 t) := by
  unfold resolve at h
  split at h
  · rename_i rc hfound
    exact ⟨rc, List.mem_of_find?_eq_some hfound, by simpa using List.find?_some hfound⟩
  · split at h
    · rename_i row hrow
      split at h
      · rename_i hhash
        rw [hw.legacy row hrow] at hhash
        cases hhash
      · cases h
    · cases h

/-- Where the token of a process comes from, whatever step it took. -/
theorem act_token_stored {cfg : Config} {p : Nat} {c : Choice} {w w' : World} {l l' : Proc}
    (h : act cfg p c w l = some (w', l')) (hw : Issued w) (hl : l.Consistent) {t : Nat}
    (ht : l'.token = some t) :
    l.token = some t ∨ ∃ r ∈ w.db.recipients, r.signingTokenHash = some (.sha256 t) := by
  rcases act_token (p := p) h with hnext | hnone
  · rcases next_token hnext hl ht with hold | ⟨recipientId, hresolved⟩
    · exact Or.inl hold
    · exact Or.inr (resolve_stored hw hresolved)
  · rw [hnone] at ht
    cases ht

/-- What a process takes in hand; `w'` is the world with the tokens minted. -/
theorem InHand.ready {cfg : Config} {p : Nat} {c : Choice} {w w' : World} {l l' : Proc} (hw : Issued w)
    (h : InHand w l) (hact : act cfg p c w l = some (w', l')) (hready : Readies cfg w l w' l') :
    InHand w' l' where
  token t ht := by
    have hminted : t < w.minted := by
      rcases act_token_stored (p := p) hact hw h.loaded ht with hold | ⟨r, hr, hhash⟩
      · exact h.token t hold
      · exact hw.minted r hr t hhash
    exact lt_of_lt_of_le hminted hready.same.minted
  loaded token visit req hl := by
    cases hready.loaded token visit req hl with
    | recipient row rc hrc hhash hopen => rfl
    | legacy row hrow hhash => rfl
  waits write k hl id t hlink := by
    obtain ⟨hge, hlt, -⟩ := (hready.pending write k hl).link hlink
    refine ⟨hlt, ?_⟩
    rw [hready.same.db]
    intro r hr hstored
    have := hw.minted r hr t hstored
    omega

/-- The links a process takes in hand are newer than all others, and a token it takes in hand is stored. -/
theorem unseen_of_ready {cfg : Config} {p : Nat} {c : Choice} {w w' : World} {l l' other : Proc}
    (hw : Issued w) (hown : InHand w l) (hact : act cfg p c w l = some (w', l'))
    (hready : Readies cfg w l w' l') (hother : InHand w other) (hpair : Unseen other l) :
    Unseen l' other ∧ Unseen other l' := by
  constructor
  · intro write k hl id t hlink
    obtain ⟨hge, -, -⟩ := (hready.pending write k hl).link hlink
    refine ⟨fun htoken => ?_, fun write' k' hl' id' hlink' => ?_⟩
    · have := hother.token t htoken
      omega
    · have := (hother.waits write' k' hl' id' t hlink').1
      omega
  · intro write k hl id t hlink
    obtain ⟨hminted, hstored⟩ := hother.waits write k hl id t hlink
    refine ⟨fun htoken => ?_, fun write' k' hl' id' hlink' => ?_⟩
    · rcases act_token_stored (p := p) hact hw hown.loaded htoken with hold | ⟨r, hr, hhash⟩
      · exact (hpair write k hl id t hlink).1 hold
      · exact hstored r hr hhash
    · obtain ⟨hge, -, -⟩ := (hready.pending write' k' hl').link hlink'
      omega

theorem issuedOutline (cfg : Config) (ok : System World Proc → Label Choice Event → Prop) :
    ProofOutline (service cfg) ok Issued (fun w _ l => InHand w l) Unseen where
  act := by
    intro s p c sh l hs _ hact
    rcases act_spec (p := p) hact with ⟨write, k, hl, -, rfl, rfl⟩ | hready
    · have hown := hs.proc p
      rw [hl] at hown
      refine ⟨hs.shared.commit hown, InHand.after _ k write _, fun q hq => ?_, fun q _ => ⟨?_, ?_⟩⟩
      · have hunseen := hs.pair p q hq.symm
        rw [hl] at hunseen
        exact (hs.proc q).commit hunseen
      · intro write' k' hl'
        rw [Kont.pending_after] at hl'
        cases hl'
      · intro write' k' _ id t _
        rw [Kont.token_after, Kont.pending_after]
        exact ⟨by simp, by simp⟩
    · exact ⟨hs.shared.same hready.same, InHand.ready (p := p) hs.shared (hs.proc p) hact hready,
        fun q _ => (hs.proc q).same hready.same,
        fun q hq => unseen_of_ready (p := p) hs.shared (hs.proc p) hact hready (hs.proc q)
          (hs.pair q p hq)⟩
  env := by
    intro s e sh hs _ henv
    have hsame := env_spec henv
    exact ⟨hs.shared.same hsame, fun q => (hs.proc q).same hsame⟩

/-! ## The links of a voided envelope are dead -/

/-- The envelope is voided, or its send has taken it back. -/
def Closed (db : Db) : Prop := ∀ row, db.request = some row → row.status = .voided

/-- No open row holds the link. -/
def Dead (db : Db) (t : Nat) : Prop :=
  ∀ r ∈ db.recipients, r.signingTokenHash = some (.sha256 t) → r.open_ = false

/-- A `void` commits over a live link that a submit has loaded: its clearing passed the recipient over as
completed, and they are open again since. -/
inductive Outlives (s : System World Proc) : Label Choice Event → Prop
  | void (p q : Nat) (passed : List Nat) (now : Int) (k : Kont) (r : Recipient) (token : Nat)
      (hp : s.procs p = .writing (.voided passed now) k) (hr : r ∈ s.shared.db.recipients)
      (hpassed : r.id ∈ passed) (hopen : r.open_ = true)
      (hhash : r.signingTokenHash = some (.sha256 token))
      (hq : (s.procs q).presented = some token) : Outlives s (.proc p .next)

/-- Nobody can sign a voided envelope. -/
def Final (s : System World Proc) : Prop :=
  Closed s.shared.db → ∀ p t, (s.procs p).presented = some t → Dead s.shared.db t

/-- Only `void` makes an envelope voided. -/
theorem onRequest_voided {write : Write} {row : SignatureRequest}
    (h : (write.onRequest row).status = .voided) :
    row.status = .voided ∨ ∃ passed now, write = .voided passed now := by
  cases write with
  | voided passed now => exact Or.inr ⟨passed, now, rfl⟩
  | expired passed told now =>
      refine Or.inl ?_
      simp only [Write.onRequest, updateRow] at h
      split_ifs at h <;> exact h
  | _ =>
      refine Or.inl ?_
      simp only [Write.onRequest, updateRow] at h
      first
        | exact h
        | split_ifs at h <;> exact h

theorem Closed.write {db : Db} (h : Closed db) (write : Write) : Closed (db.write write) := by
  intro row' hrow'
  obtain ⟨row, hrow, rfl⟩ := exists_of_write_request hrow'
  rw [onRequest_final (Or.inr (h row hrow)), h row hrow]

/-- A `void` that leaves a link alone passed its recipient over. -/
theorem mem_passed_of_voided {passed : List Nat} {now : Int} {r : Recipient} (hopen : r.open_ = true)
    (hhash : ((Write.voided passed now).onRecipient r).signingTokenHash ≠ none) : r.id ∈ passed := by
  by_contra hpassed
  have hleft : r.status ≠ .completed := by
    rcases Recipient.open_iff.mp hopen with h | h <;> simp [h]
  refine hhash ?_
  show (updateRow _ _ r).signingTokenHash = none
  rw [updateRow_of_true (by simp [hleft, hpassed])]

/-- A link that is alive after a commit is one the commit stores, or it was alive before and was not
cleared. -/
theorem dead_of_commit {w : World} {write : Write} {t : Nat} (hroles : Roles w.db)
    (hwrite : WriteRoles w.db write) (hunstored : ∀ id, (id, t) ∉ write.links)
    (hclosed : Closed (w.db.write write)) (hdead : Closed w.db → Dead w.db t)
    (houtlives : ∀ passed now, write = .voided passed now → ∀ r ∈ w.db.recipients, r.id ∈ passed →
      r.open_ = true → r.signingTokenHash ≠ some (.sha256 t)) :
    Dead (w.db.write write) t := by
  intro r' hr' hhash'
  obtain ⟨r, hr, rfl⟩ := exists_of_mem_write hr'
  by_contra hopen'
  rw [Bool.not_eq_false] at hopen'
  have hactivates : ∀ id ∈ write.activates, id = r.id → r.role = .cc := fun id hid heq =>
    hwrite.activates id hid r hr heq.symm
  rcases open_of_onRecipient (fun hcc => (hroles.cc r hr hcc).1) hactivates hopen' hhash' with
    ⟨hopen, hhash⟩ | hlink
  · by_cases hbefore : Closed w.db
    · rw [hdead hbefore r hr hhash] at hopen
      cases hopen
    · -- The envelope was closed by this commit: it is the one of a `void`.
      simp only [Closed, not_forall] at hbefore
      obtain ⟨row, hrow, hstatus⟩ := hbefore
      have hkept : write ≠ .deleted := by
        rintro rfl
        exact List.not_mem_nil hr'
      rcases onRequest_voided (hclosed _ (write_request hkept hrow)) with hold | ⟨passed, now, rfl⟩
      · exact hstatus hold
      · have hkeeps : ((Write.voided passed now).onRecipient r).signingTokenHash ≠ none := by
          rw [hhash']
          simp
        exact houtlives passed now rfl r hr (mem_passed_of_voided hopen hkeeps) hopen hhash
  · exact hunstored r.id hlink

theorem final_step {cfg : Config} {s s' : System World Proc} {l : Label Choice Event}
    (hroles : Holds (fun w : World => Roles w.db) (fun w _ l => ProcRoles w l) (fun _ _ => True) s)
    (htokens : Holds Issued (fun w _ l => InHand w l) Unseen s) (hs : Final s) (hok : ¬ Outlives s l)
    (hstep : (service cfg).step s l = some s') : Final s' := by
  cases l with
  | env e =>
      obtain ⟨sh, henv, rfl⟩ := Program.step_env hstep
      show Closed sh.db → ∀ p t, (s.procs p).presented = some t → Dead sh.db t
      rw [(env_spec henv).db]
      exact hs
  | proc p c =>
      obtain ⟨sh, l', hact, rfl⟩ := Program.step_proc hstep
      intro hclosed q t ht
      rcases act_spec (p := p) hact with ⟨write, k, hl, rfl, rfl, rfl⟩ | hready
      · -- A commit: the process has nothing in hand any more, and the links of the others are dead.
        have hqp : q ≠ p := by
          rintro rfl
          have htoken := Proc.token_of_presented ht
          simp only [Function.update_self] at htoken
          rw [Kont.token_after] at htoken
          cases htoken
        have hpresented : (s.procs q).presented = some t := by simpa [hqp] using ht
        have hunseen := htokens.pair p q hqp.symm
        rw [hl] at hunseen
        have hpending := (hroles.proc p).pending write k (by rw [hl]; rfl)
        refine dead_of_commit hroles.shared hpending (fun id hlink => ?_) hclosed
          (fun hbefore => hs hbefore q t hpresented) ?_
        · exact (hunseen write k rfl id t hlink).1 (Proc.token_of_presented hpresented)
        · rintro passed now rfl r hr hpassed hopen hhash
          exact hok (Outlives.void p q passed now k r t hl hr hpassed hopen hhash hpresented)
      · show Dead sh.db t
        have hbefore : Closed s.shared.db := by
          have hsame := hready.same.db
          rw [← hsame]
          exact hclosed
        rw [hready.same.db]
        by_cases hqp : q = p
        · subst hqp
          have hpresented : l'.presented = some t := by simpa using ht
          rcases act_token (p := q) hact with hnext | hnone
          · rcases next_presented hnext (htokens.proc q).loaded htokens.shared.legacy hpresented with
              hold | ⟨row, hrow, hstatus⟩
            · exact hs hbefore q t hold
            · exact absurd (hbefore row hrow) hstatus
          · rw [Proc.token_of_presented hpresented] at hnone
            cases hnone
        · exact hs hbefore q t (by simpa [hqp] using ht)

/-- Nobody's claim commits where the links in hand are dead. -/
theorem signings_of_dead {w : World} {write : Write} {k : Kont} (hw : Issued w)
    (hdead : ∀ t, (Proc.writing write k).presented = some t → Dead w.db t) :
    write.signings k w.db = [] := by
  rw [List.eq_nil_iff_forall_not_mem]
  intro sg hsg
  obtain ⟨-, hrow⟩ := mem_signings hsg
  rcases hrow with ⟨id, hash, data, rfl, r, hr, rfl, hhash, hopen, -⟩ | ⟨_, _, row, _, hrow, hhash, -⟩
  · cases hash with
    | sha256 token =>
        rw [hdead token rfl r hr hhash] at hopen
        cases hopen
  · rw [hw.legacy row hrow] at hhash
    cases hhash

/-- What holds of every state of the runs below. -/
structure Guarded (s : System World Proc) : Prop where
  roles : Holds (fun w : World => Roles w.db) (fun w _ l => ProcRoles w l) (fun _ _ => True) s
  tokens : Holds Issued (fun w _ l => InHand w l) Unseen s
  final : Final s

theorem guarded_step {cfg : Config} (s : System World Proc) (l : Label Choice Event)
    (s' : System World Proc) (hs : Guarded s) (hok : ¬ Outlives s l)
    (hstep : (service cfg).step s l = some s') : Guarded s' where
  roles := (rolesOutline cfg fun _ _ => True).holds_step s l s' hs.roles trivial hstep
  tokens := (issuedOutline cfg fun _ _ => True).holds_step s l s' hs.tokens trivial hstep
  final := final_step hs.roles hs.tokens hs.final hok hstep

/-- A voided envelope stays voided, whatever step is taken. -/
theorem Closed.step {cfg : Config} {s s' : System World Proc} {l : Label Choice Event}
    (h : Closed s.shared.db) (hstep : (service cfg).step s l = some s') : Closed s'.shared.db := by
  rcases step_rows hstep with ⟨p, write, k, -, -, hcommit⟩ | hsame
  · rw [hcommit]
    exact h.write write
  · rw [hsame.db]
    exact h

/-- Where the envelope is voided a step signs nothing and leaves it voided. -/
theorem closed_step {cfg : Config} {s s' : System World Proc} {l : Label Choice Event} (hs : Guarded s)
    (hclosed : Closed s.shared.db) (hstep : (service cfg).step s l = some s') :
    Closed s'.shared.db ∧ s'.shared.signings = s.shared.signings := by
  refine ⟨hclosed.step hstep, ?_⟩
  rcases step_rows hstep with ⟨p, write, k, -, hl, hcommit⟩ | hsame
  · have hnone : write.signings k s.shared.db = [] := by
      refine signings_of_dead hs.tokens.shared fun t ht => hs.final hclosed p t ?_
      rw [hl]
      exact ht
    rw [hcommit]
    show write.signings k s.shared.db ++ s.shared.signings = s.shared.signings
    rw [hnone, List.nil_append]
  · exact hsame.signings

/-! ## The row itself -/

/-- The send that made the envelope may still take it back. -/
def Proc.sends : Proc → Bool
  | .sending _ => true
  | .writing .deleted _ => true
  | _ => false

theorem Kont.sends_after (k : Kont) (w : Write) (db : Db) : (k.after w db).sends = false := by
  have hfollows := k.follows_after w db
  generalize k.after w db = l at hfollows ⊢
  cases hfollows <;> rfl

theorem next_sends {cfg : Config} {w w' : World} {l l' : Proc} (h : Next cfg w l w' l')
    (hl : l.sends = false) : l'.sends = false := by
  cases h with
  | viewing token ip ua req hviewed =>
      unfold LoadedRequest.viewWrite
      split <;> rfl
  | consenting token req hconsent =>
      unfold LoadedRequest.consentWrite
      split <;> rfl
  | claiming token dto ip ua req data hdata =>
      unfold LoadedRequest.claimWrite
      split <;> rfl
  | commit write k => exact k.sends_after write w.db
  | enqueueFirst job rest => cases hl
  | _ => rfl

theorem act_sends {cfg : Config} {p : Nat} {c : Choice} {w w' : World} {l l' : Proc}
    (h : act cfg p c w l = some (w', l')) (hl : l.sends = false) : l'.sends = false := by
  rcases act_cases h with ⟨call, -, -, -, rfl⟩ | ⟨-, hnext⟩ | ⟨taken, -, hfail⟩ | ⟨-, -, -, rfl⟩
  · cases call <;> rfl
  · exact next_sends hnext hl
  · obtain ⟨-, hcases⟩ := failEnqueue_spec hfail
    rcases hcases with ⟨_, _, rest, -, rfl⟩ | ⟨-, rfl⟩ | ⟨_, rest, -, rfl⟩ | ⟨job, rest, a, rfl, -⟩
    · rfl
    · rfl
    · rfl
    · cases hl
  · rfl

/-- Once the send is over, the envelope's row stays. -/
theorem kept_step {cfg : Config} {s s' : System World Proc} {l : Label Choice Event}
    (hsends : ∀ p, (s.procs p).sends = false) (hrow : s.shared.db.request ≠ none)
    (hstep : (service cfg).step s l = some s') :
    (∀ p, (s'.procs p).sends = false) ∧ s'.shared.db.request ≠ none := by
  cases l with
  | env e =>
      obtain ⟨sh, henv, rfl⟩ := Program.step_env hstep
      refine ⟨hsends, ?_⟩
      show sh.db.request ≠ none
      rw [(env_spec henv).db]
      exact hrow
  | proc p c =>
      obtain ⟨sh, l', hact, rfl⟩ := Program.step_proc hstep
      constructor
      · intro q
        by_cases hqp : q = p
        · subst hqp
          simpa using act_sends (p := q) hact (hsends q)
        · simpa [hqp] using hsends q
      · show sh.db.request ≠ none
        rcases act_spec (p := p) hact with ⟨write, k, hl, -, rfl, -⟩ | hready
        · have hkept : write ≠ .deleted := by
            rintro rfl
            have hp := hsends p
            rw [hl] at hp
            cases hp
          obtain ⟨row, hrow⟩ := Option.ne_none_iff_exists'.mp hrow
          show (s.shared.db.write write).request ≠ none
          rw [write_request hkept hrow]
          simp
        · rw [hready.same.db]
          exact hrow

/-! ## Every run -/

theorem guarded_start {input : SendRequest} {s : Sending} (h : NewEnvelope input s.minted s.db)
    (now : Int) : Guarded (start s now) where
  roles := rolesHolds_start h now
  tokens :=
    { shared :=
        { minted := (linksHolds_start h now).shared.minted
          legacy := (linksHolds_start h now).shared.legacy
          gone := by
            intro hnone
            obtain ⟨row, hrow, -⟩ := h.request
            cases hrow.symm.trans hnone }
      proc := by
        intro p
        simp only [start]
        split <;> exact ⟨by simp [Proc.token], by simp [Proc.Consistent], by simp [Proc.pending]⟩
      pair := by
        intro p q _ write k hl
        simp only [start] at hl
        split at hl <;> cases hl }
  final := by
    intro hclosed
    obtain ⟨row, hrow, -, hsent, -⟩ := h.request
    rw [hclosed row hrow] at hsent
    cases hsent

/-- **Void is final**, in the runs where no submit has loaded a link that the commit of a void leaves
alive: the status stays, as long as there is a row, which only the roll-back of the send itself takes
away, and nobody signs any more. -/
theorem voided_is_final {cfg : Config} {template : Option Template} {input : SendRequest}
    {senderName : Option JsString} {now : Int} {sending : Sending}
    (hinput : SendRequestSchema cfg.platform input = true)
    (hsend : send cfg template input senderName now = .ok sending) {s s' : System World Proc}
    (hs : Reaches (service cfg) (fun s l => ¬ Outlives s l) (start sending now) s)
    (hs' : Reaches (service cfg) (fun s l => ¬ Outlives s l) s s') {row : SignatureRequest}
    (hrow : s.shared.db.request = some row) (hvoided : row.status = .voided) :
    (∀ row', s'.shared.db.request = some row' → row'.status = .voided) ∧
    ((∀ p, (s.procs p).sends = false) →
      ∃ row', s'.shared.db.request = some row' ∧ row'.status = .voided) ∧
    s'.shared.signings = s.shared.signings := by
  have hguarded : Guarded s :=
    Reaches.invariant guarded_step hs (guarded_start (send_spec hinput hsend) now)
  have hclosed : Closed s.shared.db := by
    intro row' hrow'
    obtain rfl := Option.some.inj (hrow.symm.trans hrow')
    exact hvoided
  have hrun : Guarded s' ∧ Closed s'.shared.db ∧ s'.shared.signings = s.shared.signings := by
    refine Reaches.invariant (I := fun r => Guarded r ∧ Closed r.shared.db ∧
      r.shared.signings = s.shared.signings) ?_ hs' ⟨hguarded, hclosed, rfl⟩
    rintro a l b ⟨ha, haclosed, hasignings⟩ hok hstep
    obtain ⟨hbclosed, hbsignings⟩ := closed_step ha haclosed hstep
    exact ⟨guarded_step a l b ha hok hstep, hbclosed, hbsignings.trans hasignings⟩
  obtain ⟨-, hclosed', hsignings⟩ := hrun
  refine ⟨hclosed', fun hsends => ?_, hsignings⟩
  have hkept : (∀ p, (s'.procs p).sends = false) ∧ s'.shared.db.request ≠ none := by
    refine Reaches.invariant (I := fun r => (∀ p, (r.procs p).sends = false) ∧
      r.shared.db.request ≠ none) ?_ hs' ⟨hsends, by simp [hrow]⟩
    rintro a l b ⟨hasends, harow⟩ - hstep
    exact kept_step hasends harow hstep
  obtain ⟨row', hrow'⟩ := Option.ne_none_iff_exists'.mp hkept.2
  exact ⟨row', hrow', hclosed' row' hrow'⟩

/-- The steps at which a void leaves no link alive. -/
def clears (s : System World Proc) (l : Label Choice Event) : Bool :=
  match l with
  | .proc p .next =>
      match s.procs p with
      | .writing (.voided passed _) _ => s.shared.db.recipients.all fun r =>
          !(passed.contains r.id && r.open_)
      | _ => true
  | _ => true

theorem not_outlives_of_clears {s : System World Proc} {l : Label Choice Event} (h : clears s l = true) :
    ¬ Outlives s l := by
  rintro ⟨p, q, passed, now, k, r, token, hp, hr, hpassed, hopen, -, -⟩
  simp only [clears, hp] at h
  have hcheck := List.all_eq_true.mp h r hr
  simp [hpassed, hopen] at hcheck

/-- A submit is about to claim and a resend about to store a new link when the envelope is voided; then
both commit, and the new link is tried. -/
theorem voided_is_final_raced :
    let input := exampleInput .parallel [exampleRecipient "a" .signer 1, exampleRecipient "b" .signer 1]
    ∃ s s', replayIf clears exampleConfig exampleTemplate input 0
        (List.replicate 3 (.proc 0 .next) ++ exampleConsent 1 0 ++ .env (.clock 90000) ::
          exampleCall 2 (.visit 0 (.submit exampleSignature none none)) 4 ++
          exampleCall 3 (.resend 0) 2 ++ exampleCall 4 (.void none) 3) = some s ∧
      (service exampleConfig).runIf clears s
        ([.proc 3 .next, .proc 2 .next] ++
          exampleCall 5 (.visit 2 (.submit exampleSignature none none)) 2) = some s' ∧
      (s'.shared.db.recipients.map Recipient.status) = [.sent, .sent] ∧ s'.shared.signings = [] ∧
      ∃ row', s'.shared.db.request = some row' ∧ row'.status = .voided := by
  intro input
  let earlier : List (Label Choice Event) :=
    List.replicate 3 (.proc 0 .next) ++ exampleConsent 1 0 ++ .env (.clock 90000) ::
      exampleCall 2 (.visit 0 (.submit exampleSignature none none)) 4 ++
      exampleCall 3 (.resend 0) 2 ++ exampleCall 4 (.void none) 3
  let later : List (Label Choice Event) :=
    [.proc 3 .next, .proc 2 .next] ++ exampleCall 5 (.visit 2 (.submit exampleSignature none none)) 2
  have hrun : ((replayIf clears exampleConfig exampleTemplate input 0 earlier).bind fun s =>
      ((service exampleConfig).runIf clears s later).map fun s' =>
        (s.shared.db.request.map SignatureRequest.status, s.shared.signings.length,
          (List.range 5).all fun p => !(s.procs p).sends,
          s'.shared.db.recipients.map Recipient.status)) =
      some (some .voided, 0, true, [.sent, .sent]) := by
    decide +kernel
  obtain ⟨s, hs, hrest⟩ := Option.bind_eq_some_iff.mp hrun
  obtain ⟨s', hs', heq⟩ := Option.map_eq_some_iff.mp hrest
  simp only [Prod.mk.injEq] at heq
  obtain ⟨hvoided, hlength, hprocs, hstatus⟩ := heq
  obtain ⟨row, hrow, hvoided⟩ := Option.map_eq_some_iff.mp hvoided
  obtain ⟨sending, hsend, hreaches⟩ := replayIf_spec hs
  have hsends := forall_procs_of_replayIf (Q := fun l => !l.sends) hs (by decide) (by decide) rfl hprocs
  have hfinal := voided_is_final (by decide +kernel) hsend
    (hreaches.mono fun _ _ h => not_outlives_of_clears h)
    ((Reaches.of_runIf hs').mono fun _ _ h => not_outlives_of_clears h) hrow hvoided
  refine ⟨s, s', hs, hs', hstatus, ?_, hfinal.2.1 fun p => by simpa using hsends p⟩
  rw [hfinal.2.2]
  exact List.length_eq_zero_iff.mp hlength

/-! ## The link that outlives its envelope -/

theorem step_commit (cfg : Config) {s : System World Proc} {p : Nat} {write : Write} {k : Kont}
    (hp : s.procs p = .writing write k) :
    (service cfg).step s (.proc p .next) = some
      ⟨s.shared.commit write k, Function.update s.procs p (k.after write s.shared.db)⟩ := by
  simp [Program.step, service, act, hp, next]

/-- Where a void commits over such a link and its submit is about to claim, the claim goes through. -/
theorem signs_of_outlives {cfg : Config} {s : System World Proc} {p q : Nat} {passed : List Nat}
    {now now' : Int} {k : Kont} {r : Recipient} {token : Nat} {data : ClaimData}
    {documentName : JsString} {row : SignatureRequest}
    (hids : (s.shared.db.recipients.map Recipient.id).Nodup) (hrow : s.shared.db.request = some row)
    (hstatus : row.status ≠ .completed) (hp : s.procs p = .writing (.voided passed now) k)
    (hq : s.procs q = .writing (.claimed r.id (.sha256 token) data) (.claimed token documentName now'))
    (hr : r ∈ s.shared.db.recipients) (hpassed : r.id ∈ passed) (hopen : r.open_ = true)
    (hhash : r.signingTokenHash = some (.sha256 token)) :
    ∃ s₁ s₂, (service cfg).step s (.proc p .next) = some s₁ ∧
      (s₁.shared.db.request.map SignatureRequest.status) = some .voided ∧
      (service cfg).step s₁ (.proc q .next) = some s₂ ∧
      s₂.shared.signings.length = s₁.shared.signings.length + 1 := by
  have hqp : q ≠ p := by
    rintro rfl
    rw [hp] at hq
    cases hq
  -- The row of the recipient passed over stays as it is, link and all.
  have hkept : (Write.voided passed now).onRecipient r = r := by
    simp only [Write.onRecipient]
    rw [updateRow_of_false (by simp [hpassed])]
  have hr₁ : r ∈ (s.shared.db.write (.voided passed now)).recipients := by
    have hmem := mem_write (w := .voided passed now) (by simp) hr
    rwa [hkept] at hmem
  have hvoided : ((Write.voided passed now).onRequest row).status = .voided := by
    cases hrs : row.status <;> simp_all [Write.onRequest, updateRow, SignatureRequest.open_]
  have hcount := count_claimed (write_ids (w := .voided passed now) hids) hr₁ hhash hopen data
  have hvoid := step_commit cfg hp
  refine ⟨_, _, hvoid, ?_, step_commit cfg (p := q) (by simpa [hqp] using hq), ?_⟩
  · show ((s.shared.db.write (.voided passed now)).request.map SignatureRequest.status) = some .voided
    rw [write_request (by simp) hrow, Option.map_some, hvoided]
  · show (Write.signings _ _ _ ++ _).length = _
    rw [List.length_append, Nat.add_comm]
    congr 1
    show (Write.signings (.claimed r.id (.sha256 token) data) (.claimed token documentName now')
      (s.shared.db.write (.voided passed now))).length = 1
    simp only [Write.signings, hcount, if_true, List.length_map, length_signedRows]

/-- Somebody signs while their link is sent again: the clearing of a void passes them over, the new link
is stored and loaded, and only then the void commits. -/
def outlivingLink : List (Label Choice Event) :=
  exampleConsent 1 0 ++ .env (.clock 90000) ::
    exampleCall 2 (.void none) 1 ++ exampleCall 3 (.resend 0) 2 ++ exampleClaim 4 0 ++
    [.proc 2 .next, .proc 3 .next] ++
    exampleCall 5 (.visit 2 (.submit exampleSignature none none)) 4 ++ [.proc 2 .next]

theorem signed_after_void :
    ∃ s s', replay exampleConfig exampleTemplate
        (exampleInput .parallel [exampleRecipient "a" .signer 1, exampleRecipient "b" .signer 1]) 0
        outlivingLink = some s ∧
      (service exampleConfig).run s [.proc 5 .next] = some s' ∧
      (s.shared.db.request.map SignatureRequest.status) = some .voided ∧
      s.shared.signings.map Signing.token = [0] ∧ s'.shared.signings.map Signing.token = [2, 0] := by
  have hrun : ((replay exampleConfig exampleTemplate
      (exampleInput .parallel [exampleRecipient "a" .signer 1, exampleRecipient "b" .signer 1]) 0
      outlivingLink).bind fun s => ((service exampleConfig).run s [.proc 5 .next]).map fun s' =>
        (s.shared.db.request.map SignatureRequest.status, s.shared.signings.map Signing.token,
          s'.shared.signings.map Signing.token)) = some (some .voided, [0], [2, 0]) := by
    decide +kernel
  obtain ⟨s, hs, hrest⟩ := Option.bind_eq_some_iff.mp hrun
  obtain ⟨s', hs', heq⟩ := Option.map_eq_some_iff.mp hrest
  simp only [Prod.mk.injEq] at heq
  exact ⟨s, s', hs, hs', heq⟩

end ESignSoft.Envelope
