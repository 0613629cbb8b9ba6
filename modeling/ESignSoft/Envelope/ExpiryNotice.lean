import ESignSoft.Envelope.Reminders

/-!
# The notice of an expiry

An expiry sweep reads the envelope, retires it if it is still open, stamps it as told and then writes to
the sender.  Whether it writes is decided by the row it has read: neither the update that retires the
envelope nor the one that stamps it is asked whether it matched.  The mails of a sweep and its transaction
go by the row at two different times.

* `told_once_iff` — in every run each notice that is mailed is that of one transaction, and the sender is
  told at most once, of an envelope that did expire, exactly when each of these transactions still finds
  the envelope open.
-/

namespace ESignSoft.Envelope

open ESignSoft.Lib.JsText ESignSoft.Lib.Table ESignSoft.Lib.Interleaving
open ESignSoft.Contracts ESignSoft.Signing

/-! ## Notices on record -/

/-- A transaction of an expiry sweep that is to be followed by a mail: the envelope before and after it. -/
structure Notice where
  before : Option SignatureRequest
  after : Option SignatureRequest
  mail : Mail

/-- The notice that is to be mailed. -/
def Proc.notice : Proc → Option Mail
  | .expiredMailing mail => some mail
  | _ => none

def notices (p : Nat) (c : Choice) (w : World) (l : Proc) : List (Errand Notice Mail) :=
  match c, l with
  | .next, .writing (.expired passed told now) (.expired (some mail)) =>
      [.took p mail ⟨w.db.request, (w.db.write (.expired passed told now)).request, mail⟩]
  | .next, .expiredMailing mail => [.gave p mail]
  | _, _ => []

/-- The services, with the notices on record. -/
def noticingService (cfg : Config) : Program (Logged World (Errand Notice Mail)) Proc Choice Event :=
  (service cfg).logged notices

/-- There is one notice at most, and the envelope has become `expired` by its transaction: it was neither
completed nor voided in between. -/
structure ToldOnce (told : List Notice) : Prop where
  once : told.length ≤ 1
  expired : ∀ n ∈ told, ∃ row, n.after = some row ∧ row.status = .expired

/-- The transaction of the notice finds the envelope open. -/
def Notice.retires (n : Notice) : Bool := n.before.any SignatureRequest.open_

/-! ## What the columns tell -/

/-- An envelope is stamped as told by an expiry sweep that has read that it was not, and stays so. -/
theorem onRequest_expiredNotifiedAt (w : Write) (s : SignatureRequest) :
    (w.onRequest s).expiredNotifiedAt = s.expiredNotifiedAt ∨ ∃ passed now, w = .expired passed false now := by
  cases w with
  | expired passed told now =>
      cases told with
      | false => exact Or.inr ⟨passed, now, rfl⟩
      | true =>
          refine Or.inl ?_
          simp only [Write.onRequest, updateRow]
          split_ifs <;> rfl
  | viewed _ now ip ua | viewedLegacy now ip ua | consentedLegacy now | claimedLegacy hash data
  | completed now | voided _ now =>
      refine Or.inl ?_
      simp only [Write.onRequest, updateRow]
      split <;> rfl
  | _ => exact Or.inl rfl

theorem onRequest_told (w : Write) {s : SignatureRequest} (h : s.expiredNotifiedAt ≠ none) :
    (w.onRequest s).expiredNotifiedAt ≠ none := by
  rcases onRequest_expiredNotifiedAt w s with hsame | ⟨passed, now, rfl⟩
  · rwa [hsame]
  · simp only [Write.onRequest, updateRow]
    split_ifs <;> simp_all

theorem onRequest_stamps (passed : List Nat) (now : Int) (s : SignatureRequest) :
    ((Write.expired passed false now).onRequest s).expiredNotifiedAt ≠ none := by
  by_cases htold : s.expiredNotifiedAt = none
  · simp only [Write.onRequest, updateRow]
    split_ifs <;> simp_all
  · exact onRequest_told _ htold

/-- Only a sweep retires an envelope, and only an open one. -/
theorem onRequest_status_expired {w : Write} {s : SignatureRequest}
    (h : (w.onRequest s).status = .expired) :
    s.status = .expired ∨ s.open_ = true ∧ ∃ passed told now, w = .expired passed told now := by
  cases w with
  | expired passed told now =>
      by_cases hopen : s.open_ = true
      · exact Or.inr ⟨hopen, passed, told, now, rfl⟩
      · refine Or.inl ?_
        simp only [Write.onRequest, updateRow, hopen, Bool.false_eq_true, if_false] at h
        split_ifs at h <;> exact h
  | viewed _ now ip ua | viewedLegacy now ip ua | consentedLegacy now | claimedLegacy hash data
  | completed now | voided _ now =>
      refine Or.inl ?_
      simp only [Write.onRequest, updateRow] at h
      split at h
      · first | cases h | exact h
      · exact h
  | _ => exact Or.inl h

theorem onRequest_retires {s : SignatureRequest} (hopen : s.open_ = true) (passed : List Nat) (told : Bool)
    (now : Int) : ((Write.expired passed told now).onRequest s).status = .expired := by
  simp only [Write.onRequest, updateRow, hopen, if_true]
  split_ifs <;> rfl

/-- The row was read earlier: the address is the same, and a stamp that was there is there. -/
def ReadEarlier (db : Db) (row : SignatureRequest) : Prop :=
  ∀ current, db.request = some current → current.senderEmail = row.senderEmail ∧
    (row.expiredNotifiedAt ≠ none → current.expiredNotifiedAt ≠ none)

theorem ReadEarlier.write {db : Db} {row : SignatureRequest} (h : ReadEarlier db row) (w : Write) :
    ReadEarlier (db.write w) row := by
  intro current hcurrent
  obtain ⟨s, hs, rfl⟩ := exists_of_write_request hcurrent
  obtain ⟨hsender, htold⟩ := h s hs
  exact ⟨by rw [onRequest_senderEmail, hsender], fun hrow => onRequest_told w (htold hrow)⟩

/-- What a sweep goes by. -/
structure Proc.GoesBy (db : Db) (l : Proc) : Prop where
  reading : ∀ row unsigned, l = .expireUpdating row unsigned → ReadEarlier db row
  pending : ∀ passed told now mail, l.pending = some (.expired passed told now, .expired mail) →
    ∃ row unsigned, told = row.expiredNotifiedAt.isSome ∧ mail = expiredMail row unsigned ∧ ReadEarlier db row

theorem Proc.GoesBy.write {db : Db} {l : Proc} (h : l.GoesBy db) (w : Write) : l.GoesBy (db.write w) where
  reading row unsigned hl := (h.reading row unsigned hl).write w
  pending passed told now mail hl := by
    obtain ⟨row, unsigned, htold, hmail, hread⟩ := h.pending passed told now mail hl
    exact ⟨row, unsigned, htold, hmail, hread.write w⟩

theorem Proc.GoesBy.of_quiet {db : Db} {l : Proc} (hpending : l.pending = none)
    (hreading : ∀ row unsigned, l ≠ .expireUpdating row unsigned) : l.GoesBy db where
  reading row unsigned hl := absurd hl (hreading row unsigned)
  pending passed told now mail hl := by
    rw [hpending] at hl
    cases hl

/-- Another transaction than that of an expiry sweep. -/
theorem Proc.GoesBy.of_write {db : Db} {write : Write} {k : Kont} (h : ∀ mail, k ≠ .expired mail) :
    (Proc.writing write k).GoesBy db where
  reading row unsigned hl := by cases hl
  pending passed told now mail hl := by
    obtain ⟨-, rfl⟩ := Prod.mk.inj (Option.some.inj hl)
    exact absurd rfl (h mail)

theorem next_goesBy {cfg : Config} {w w' : World} {l l' : Proc} (hown : l.GoesBy w.db)
    (h : next cfg w l = some (w', l')) : l'.GoesBy w'.db := by
  cases next_spec h with
  | commit write k =>
      refine .of_quiet (k.pending_after write w.db) fun row unsigned hl => ?_
      have hfollows := k.follows_after write w.db
      rw [hl] at hfollows
      cases hfollows
  | expireRead row unsigned hrow =>
      refine ⟨fun row' unsigned' hl => ?_, fun _ _ _ _ hl => by cases hl⟩
      obtain ⟨rfl, rfl⟩ := Proc.expireUpdating.inj hl
      intro current hcurrent
      obtain rfl : row = current := Option.some.inj (hrow.symm.trans hcurrent)
      exact ⟨rfl, id⟩
  | expireUpdate row unsigned mail =>
      refine ⟨fun _ _ hl => (Proc.noConfusion hl), fun passed told now mail' hl => ?_⟩
      obtain ⟨row', unsigned', hread, -, -, hmail⟩ := next_expired h
      obtain ⟨rfl, rfl⟩ := Proc.expireUpdating.inj hread
      obtain ⟨hwrite, hk⟩ := Prod.mk.inj (Option.some.inj hl)
      obtain ⟨-, rfl, -⟩ := Write.expired.inj hwrite
      obtain rfl := Kont.expired.inj hk
      exact ⟨row, unsigned, rfl, hmail, hown.reading row unsigned rfl⟩
  | viewing token ip ua req hviewed => exact .of_write (by simp)
  | consenting token req hconsent => exact .of_write (by simp)
  | claiming token dto ip ua req data hdata => exact .of_write (by simp)
  | complete documentName now hcomplete => exact .of_write (by simp)
  | handOff documentName now group hgroup => exact .of_write (by simp)
  | voidUpdate people documentName reason now jobs => exact .of_write (by simp)
  | resend id row rc job hrc hrole hcompleted hpending => exact .of_write (by simp)
  | remind rc rest total mail hcompleted => exact .of_write (by simp)
  | _ => exact .of_quiet rfl (by simp)

theorem act_goesBy {cfg : Config} {p : Nat} {c : Choice} {w w' : World} {l l' : Proc} (hown : l.GoesBy w.db)
    (h : act cfg p c w l = some (w', l')) : l'.GoesBy w'.db := by
  rcases act_cases h with ⟨call, -, -, rfl, rfl⟩ | ⟨rfl, -⟩ | ⟨taken, -, hfail⟩ | ⟨-, -, rfl, rfl⟩
  · exact .of_quiet (by cases call <;> rfl) (by cases call <;> simp [Call.begin])
  · exact next_goesBy hown h
  · obtain ⟨-, hcases⟩ := failEnqueue_spec hfail
    rcases hcases with ⟨_, _, _, -, rfl⟩ | ⟨-, rfl⟩ | ⟨_, _, -, rfl⟩ | ⟨_, _, _, -, rfl⟩
    · exact .of_quiet rfl (by simp)
    · exact .of_quiet rfl (by simp)
    · exact .of_quiet rfl (by simp)
    · exact .of_write (by simp)
  · exact .of_quiet rfl (by simp)

theorem goesByOutline (cfg : Config) (ok : System World Proc → Label Choice Event → Prop) :
    ProofOutline (service cfg) ok (fun _ => True) (fun w _ l => l.GoesBy w.db) (fun _ _ => True) where
  act s p c sh l hs _ hact := by
    refine ⟨trivial, act_goesBy (p := p) (hs.proc p) hact, fun q _ => ?_, fun _ _ => ⟨trivial, trivial⟩⟩
    rcases act_spec (p := p) hact with ⟨write, k, -, -, rfl, -⟩ | hready
    · exact (hs.proc q).write write
    · rw [hready.same.db]
      exact hs.proc q
  env s e sh hs _ henv := by
    rw [(env_spec henv).db]
    exact ⟨trivial, hs.proc⟩

/-! ## What a step has to do with notices -/

inductive NoticeStep (p : Nat) (w : World) : Proc → World → Proc → List (Errand Notice Mail) → Prop
  | tells (passed : List Nat) (told : Bool) (now : Int) (mail : Mail) :
      NoticeStep p w (.writing (.expired passed told now) (.expired (some mail)))
        (w.commit (.expired passed told now) (.expired (some mail))) (.expiredMailing mail)
        [.took p mail ⟨w.db.request, (w.db.write (.expired passed told now)).request, mail⟩]
  | mails (mail : Mail) (hkind : mail.sweep = .expiry) :
      NoticeStep p w (.expiredMailing mail) (w.mail mail) (.done (.swept 1)) [.gave p mail]
  | commits (write : Write) (k : Kont) (l' : Proc)
      (hsilent : ∀ passed told now, write = .expired passed told now → k = .expired none)
      (hhand : l'.notice = none) : NoticeStep p w (.writing write k) (w.commit write k) l' []
  | quiet (l : Proc) (w' : World) (l' : Proc) (hdb : w'.db = w.db)
      (hmailed : w'.mailedBy .expiry = w.mailedBy .expiry) (hhand : l'.notice = none) :
      NoticeStep p w l w' l' []

theorem noticeStep_commit {p : Nat} {w : World} {write : Write} {k : Kont} (hpaired : write.sweep = k.sweep) :
    NoticeStep p w (.writing write k) (w.commit write k) (k.after write w.db)
      (notices p .next w (.writing write k)) := by
  have hhand : (∀ mail, k ≠ .expired (some mail)) → (k.after write w.db).notice = none := by
    intro hk
    have hfollows := k.follows_after write w.db
    generalize k.after write w.db = l at hfollows ⊢
    cases hfollows with
    | mailing mail => exact absurd rfl (hk mail)
    | _ => rfl
  cases write with
  | expired passed told now =>
      cases k with
      | expired mail =>
          cases mail with
          | none => exact NoticeStep.commits _ _ _ (fun _ _ _ _ => rfl) rfl
          | some mail => exact NoticeStep.tells passed told now mail
      | _ => cases hpaired
  | _ =>
      refine NoticeStep.commits _ _ _ (fun _ _ _ hw => Write.noConfusion hw) (hhand fun mail hk => ?_)
      rw [hk] at hpaired
      cases hpaired

theorem act_noticeStep {cfg : Config} {p : Nat} {c : Choice} {w w' : World} {l l' : Proc} (hpaired : l.Paired)
    (h : act cfg p c w l = some (w', l')) : NoticeStep p w l w' l' (notices p c w l) := by
  rcases act_cases h with ⟨call, rfl, hrest, rfl, rfl⟩ | ⟨rfl, hnext⟩ | ⟨taken, rfl, hfail⟩ |
    ⟨rfl, hbusy, rfl, rfl⟩
  · exact NoticeStep.quiet _ _ _ rfl rfl (by cases call <;> rfl)
  · cases hnext with
    | commit write k => exact noticeStep_commit (hpaired.sweep write k rfl)
    | mailExpired mail => exact NoticeStep.mails mail (hpaired.letter .expiry mail rfl)
    | mailReminder mail rest total =>
        -- A reminder is no notice.
        refine NoticeStep.quiet _ _ _ rfl ?_ rfl
        simp [World.mailedBy, World.mail, hpaired.letter .reminder mail rfl]
    | stop l a hend =>
        cases l with
        | writing write k => exact hend.elim
        | expiredMailing mail =>
            simp only [act, next, Option.some.injEq, Prod.mk.injEq] at h
            have hmailed : mail :: w.mailed = w.mailed := congrArg World.mailed h.1
            exact absurd hmailed (List.cons_ne_self mail w.mailed)
        | _ => exact NoticeStep.quiet _ _ _ rfl rfl rfl
    | _ => exact NoticeStep.quiet _ _ _ rfl rfl rfl
  · obtain ⟨⟨q, rfl⟩, hcases⟩ := failEnqueue_spec hfail
    refine NoticeStep.quiet _ _ _ rfl rfl ?_
    rcases hcases with ⟨_, _, _, -, rfl⟩ | ⟨-, rfl⟩ | ⟨_, _, -, rfl⟩ | ⟨_, _, _, -, rfl⟩ <;> rfl
  · exact NoticeStep.quiet _ _ _ rfl rfl rfl

theorem NoticeStep.deals {p : Nat} {w w' : World} {l l' : Proc} {new : List (Errand Notice Mail)}
    (h : NoticeStep p w l w' l' new) : Errand.Deals Proc.notice p l l' new := by
  cases h with
  | tells passed told now mail => exact .took mail _ rfl
  | mails mail hkind => exact .gave mail rfl rfl
  | commits write k l' hsilent hhand => exact .kept (Or.inr hhand)
  | quiet l w' l' hdb hmailed hhand => exact .kept (Or.inr hhand)

/-! ## Every run -/

/-- Where a notice finds the envelope open it is the first, where it finds it retired it is not, and these
are the notices that leave it retired. -/
structure Notice.Follows (n : Notice) (earlier : List Notice) : Prop where
  first : ∀ row, n.before = some row → row.open_ = true → earlier = []
  later : ∀ row, n.before = some row → row.status = .expired → earlier ≠ []
  retired : (∃ row', n.after = some row' ∧ row'.status = .expired) ↔
    ∃ row, n.before = some row ∧ (row.open_ = true ∨ row.status = .expired)

def InTurn : List Notice → Prop
  | [] => True
  | n :: earlier => n.Follows earlier ∧ InTurn earlier

structure Noticed (s : Logged World (Errand Notice Mail)) : Prop where
  closed : Errand.notes s.log ≠ [] → ∀ row, s.state.db.request = some row → row.open_ = false
  expired : ∀ row, s.state.db.request = some row → row.status = .expired → row.expiredNotifiedAt ≠ none
  stamped : ∀ row, s.state.db.request = some row → row.expiredNotifiedAt ≠ none →
    Errand.notes s.log ≠ [] ∨ ∀ email, row.senderEmail = some email → email = []
  inTurn : InTurn (Errand.notes s.log)
  addressed : ∀ n ∈ Errand.notes s.log, ∃ email documentName unsigned,
    n.mail = .expired email documentName unsigned ∧ ∀ row, n.before = some row → row.senderEmail = some email
  taken : (Errand.notes s.log).map Notice.mail = (Errand.taken s.log).map Prod.snd
  mailed : s.state.mailedBy .expiry = (Errand.given s.log).map Prod.snd

theorem senderEmail_of_expiredMail {row : SignatureRequest} {unsigned : List JsString}
    (h : expiredMail row unsigned = none) (htold : row.expiredNotifiedAt = none) :
    ∀ email, row.senderEmail = some email → email = [] := by
  intro email hsender
  by_contra hempty
  simp [expiredMail, htold, hsender, hempty] at h

theorem onRequest_status_of_expired {row : SignatureRequest} {passed : List Nat} {told : Bool} {now : Int} :
    ((Write.expired passed told now).onRequest row).status = .expired ↔
      row.open_ = true ∨ row.status = .expired := by
  constructor
  · intro h
    rcases onRequest_status_expired h with hexpired | ⟨hopen, -⟩
    · exact Or.inr hexpired
    · exact Or.inl hopen
  · rintro (hopen | hexpired)
    · exact onRequest_retires hopen passed told now
    · simp only [Write.onRequest, updateRow]
      split_ifs <;> simp [hexpired]

/-- The transaction of a notice: whoever gets ready to write has read that nobody was told. -/
theorem Noticed.tells {s : Logged World (Errand Notice Mail)} (h : Noticed s) {p : Nat} {passed : List Nat}
    {told : Bool} {now : Int} {mail : Mail}
    (hgoes : (Proc.writing (.expired passed told now) (.expired (some mail))).GoesBy s.state.db) :
    Noticed
      { state := s.state.commit (.expired passed told now) (.expired (some mail))
        log := .took p mail ⟨s.state.db.request,
          (s.state.db.write (.expired passed told now)).request, mail⟩ :: s.log } := by
  obtain ⟨row₀, unsigned, htold, hmail, hread⟩ := hgoes.pending passed told now (some mail) rfl
  obtain ⟨hnone, email, hsender, hempty, rfl⟩ := expiredMail_eq_some hmail.symm
  obtain rfl : told = false := by rw [htold, hnone]; rfl
  have hfollows : Notice.Follows ⟨s.state.db.request,
      (s.state.db.write (.expired passed false now)).request, .expired email row₀.documentName unsigned⟩
      (Errand.notes s.log) := by
    refine ⟨fun row hrow hopen => ?_, fun row hrow hexpired => ?_, ⟨?_, ?_⟩⟩
    · by_contra hearlier
      rw [h.closed hearlier row hrow] at hopen
      cases hopen
    · -- A retired envelope is stamped, and the sender has an address.
      rcases h.stamped row hrow (h.expired row hrow hexpired) with hearlier | habsent
      · exact hearlier
      · exact absurd (habsent email ((hread row hrow).1.trans hsender)) hempty
    · rintro ⟨row', hrow', hstatus⟩
      obtain ⟨row, hrow, rfl⟩ := exists_of_write_request hrow'
      exact ⟨row, hrow, onRequest_status_of_expired.mp hstatus⟩
    · rintro ⟨row, hrow, hstatus⟩
      exact ⟨_, write_request (by simp) hrow, onRequest_status_of_expired.mpr hstatus⟩
  refine ⟨fun _ row' hrow' => ?_, fun row' hrow' _ => ?_, fun _ _ _ => Or.inl (List.cons_ne_nil _ _),
    ⟨hfollows, h.inTurn⟩, fun n hn => ?_, congrArg (_ :: ·) h.taken, h.mailed⟩
  · obtain ⟨row, -, rfl⟩ := exists_of_write_request hrow'
    exact onRequest_of_clearing (Or.inr ⟨_, _, _, rfl⟩) row
  · obtain ⟨row, -, rfl⟩ := exists_of_write_request hrow'
    exact onRequest_stamps passed now row
  · rcases List.mem_cons.mp hn with rfl | hearlier
    · exact ⟨email, _, _, rfl, fun row hrow => (hread row hrow).1.trans hsender⟩
    · exact h.addressed n hearlier

/-- Any other transaction. -/
theorem Noticed.commits {s : Logged World (Errand Notice Mail)} (h : Noticed s) {write : Write} {k : Kont}
    (hgoes : (Proc.writing write k).GoesBy s.state.db)
    (hsilent : ∀ passed told now, write = .expired passed told now → k = .expired none) :
    Noticed { state := s.state.commit write k, log := s.log } := by
  refine ⟨fun hnotes row' hrow' => ?_, fun row' hrow' hexpired => ?_, fun row' hrow' hstamped => ?_, h.inTurn,
    h.addressed, h.taken, h.mailed⟩
  · obtain ⟨row, hrow, rfl⟩ := exists_of_write_request hrow'
    by_contra hopen
    have hwas := open_of_onRequest (Bool.not_eq_false _ ▸ hopen)
    rw [h.closed hnotes row hrow] at hwas
    cases hwas
  · obtain ⟨row, hrow, rfl⟩ := exists_of_write_request hrow'
    rcases onRequest_status_expired hexpired with hwas | ⟨-, passed, told, now, rfl⟩
    · exact onRequest_told write (h.expired row hrow hwas)
    · obtain rfl := hsilent _ _ _ rfl
      obtain ⟨row₀, unsigned, htold, -, hread⟩ := hgoes.pending passed told now none rfl
      cases told with
      | false => exact onRequest_stamps passed now row
      | true =>
          refine onRequest_told _ ((hread row hrow).2 fun hnone => ?_)
          rw [hnone] at htold
          cases htold
  · obtain ⟨row, hrow, rfl⟩ := exists_of_write_request hrow'
    rcases onRequest_expiredNotifiedAt write row with hsame | ⟨passed, now, rfl⟩
    · rw [hsame] at hstamped
      rw [onRequest_senderEmail]
      exact h.stamped row hrow hstamped
    · -- A sweep that stamps and does not write has nobody to write to.
      obtain rfl := hsilent _ _ _ rfl
      obtain ⟨row₀, unsigned, htold, hmail, hread⟩ := hgoes.pending passed false now none rfl
      have hnone : row₀.expiredNotifiedAt = none := Option.not_isSome_iff_eq_none.mp (by simp [← htold])
      refine Or.inr fun email hsender => ?_
      rw [onRequest_senderEmail, (hread row hrow).1] at hsender
      exact senderEmail_of_expiredMail hmail.symm hnone email hsender

theorem Noticed.quiet {w w' : World} {log : List (Errand Notice Mail)} (h : Noticed ⟨w, log⟩)
    (hdb : w'.db = w.db) (hmailed : w'.mailedBy .expiry = w.mailedBy .expiry) : Noticed ⟨w', log⟩ := by
  refine ⟨?_, ?_, ?_, h.inTurn, h.addressed, h.taken, hmailed.trans h.mailed⟩
  · rw [hdb]
    exact h.closed
  · rw [hdb]
    exact h.expired
  · rw [hdb]
    exact h.stamped

theorem Noticed.step {s s' : Logged World (Errand Notice Mail)} {p : Nat} {l l' : Proc}
    {new : List (Errand Notice Mail)} (h : Noticed s) (hgoes : l.GoesBy s.state.db)
    (hstep : NoticeStep p s.state l s'.state l' new) (hlog : s'.log = new ++ s.log) : Noticed s' := by
  obtain ⟨w', log'⟩ := s'
  obtain rfl : log' = new ++ s.log := hlog
  cases hstep with
  | tells passed told now mail => exact h.tells hgoes
  | mails mail hkind =>
      refine ⟨h.closed, h.expired, h.stamped, h.inTurn, h.addressed, h.taken, ?_⟩
      show List.filter _ (mail :: s.state.mailed) = mail :: (Errand.given s.log).map Prod.snd
      rw [List.filter_cons_of_pos (by simp [hkind]), ← h.mailed]
      rfl
  | commits write k l' hsilent hhand => exact h.commits hgoes hsilent
  | quiet l w' l' hdb hmailed hhand => exact h.quiet hdb hmailed

/-- Notices in turn are one notice of an envelope that expired, if any, exactly when each finds the
envelope open. -/
theorem InTurn.toldOnce_iff {told : List Notice} (h : InTurn told) :
    ToldOnce told ↔ ∀ n ∈ told, n.retires = true := by
  cases told with
  | nil => exact ⟨fun _ _ hn => absurd hn (List.not_mem_nil), fun _ => ⟨Nat.zero_le _, by simp⟩⟩
  | cons n earlier =>
      constructor
      · intro hgood n' hn'
        have hnil : earlier = [] := List.length_eq_zero_iff.mp (by simpa using hgood.once)
        subst hnil
        obtain rfl := List.mem_singleton.mp hn'
        obtain ⟨row, hrow, hopen | hexpired⟩ := h.1.retired.mp (hgood.expired n' (by simp))
        · simp [Notice.retires, hrow, hopen]
        · exact absurd rfl (h.1.later row hrow hexpired)
      · intro hretires
        obtain ⟨row, hrow, hopen⟩ := Option.any_eq_true _ _ |>.mp (hretires n (by simp))
        have hnil := h.1.first row hrow hopen
        subst hnil
        refine ⟨Nat.le_refl 1, fun n' hn' => ?_⟩
        obtain rfl := List.mem_singleton.mp hn'
        exact h.1.retired.mpr ⟨row, hrow, Or.inl hopen⟩

/-- What is known of the processes in every run. -/
structure Noticing (s : System World Proc) : Prop where
  goesBy : Holds (fun _ => True) (fun w _ l => l.GoesBy w.db) (fun _ _ => True) s
  paired : Holds (fun _ => True) (fun _ _ l => l.Paired) (fun _ _ => True) s

theorem noticing_step {cfg : Config} (s : System World Proc) (l : Label Choice Event)
    (s' : System World Proc) (h : Noticing s) (hstep : (service cfg).step s l = some s') : Noticing s' where
  goesBy := (goesByOutline cfg fun _ _ => True).holds_step s l s' h.goesBy trivial hstep
  paired := (sweepsOutline cfg fun _ _ => True).holds_step s l s' h.paired trivial hstep

theorem noticing_start (sending : Sending) (now : Int) : Noticing (start sending now) where
  goesBy :=
    { shared := trivial
      proc := by
        intro p
        simp only [start]
        split <;> exact .of_quiet rfl (by simp)
      pair := fun _ _ _ => trivial }
  paired := sweepsHolds_start sending now

theorem noticedOutline (cfg : Config) :
    ProofOutline (noticingService cfg) (fun s _ => True ∧ Noticing s.unlogged)
      Noticed (fun _ _ _ => True) (fun _ _ => True) where
  act s p c sh l' hs hok hact := by
    obtain ⟨hplain, hlog⟩ := Program.logged_act hact
    obtain ⟨-, hgoes, hpaired⟩ := hok
    have hstep := act_noticeStep (p := p) (hpaired.proc p) hplain
    exact ⟨hs.shared.step (hgoes.proc p) hstep hlog, trivial, fun _ _ => trivial,
      fun _ _ => ⟨trivial, trivial⟩⟩
  env s e sh hs _ henv := by
    obtain ⟨hplain, hlog⟩ := Program.logged_env henv
    obtain ⟨w', log'⟩ := sh
    obtain rfl : log' = s.shared.log := hlog
    refine ⟨hs.shared.quiet (env_spec hplain).db ?_, fun _ => trivial⟩
    cases e <;> obtain rfl := Option.some.inj hplain <;> rfl

theorem noticed_start {cfg : Config} {template : Option Template} {input : SendRequest}
    {senderName : Option JsString} {now : Int} {sending : Sending}
    (hsend : send cfg template input senderName now = .ok sending) :
    Holds Noticed (fun _ _ _ => True) (fun _ _ => True) (start sending now).logging where
  shared := by
    obtain ⟨t, firstSigner, tokens, -, hdb⟩ := send_rows hsend
    have hrow : ∀ row, sending.db.request = some row → row.status = .sent ∧ row.expiredNotifiedAt = none := by
      intro row hrow
      rw [hdb] at hrow
      obtain rfl := Option.some.inj hrow
      exact ⟨rfl, rfl⟩
    refine ⟨fun hnotes => absurd rfl hnotes, fun row h hexpired => ?_, fun row h htold => ?_, trivial,
      fun n hn => absurd hn List.not_mem_nil, rfl, rfl⟩
    · rw [(hrow row h).1] at hexpired
      cases hexpired
    · exact absurd (hrow row h).2 htold
  proc _ := trivial
  pair _ _ _ := trivial

/-- **The sender is told once, and only of an envelope that expired,** exactly when every notice's
transaction finds the envelope open.  In every run, each notice that is mailed is that of one transaction,
no two of one, and it goes to the sender. -/
theorem told_once_iff {cfg : Config} {template : Option Template} {input : SendRequest}
    {senderName : Option JsString} {now : Int} {sending : Sending}
    {s : System (Logged World (Errand Notice Mail)) Proc}
    (hsend : send cfg template input senderName now = .ok sending)
    (hs : Reaches (noticingService cfg) (fun _ _ => True) (start sending now).logging s) :
    let told := Errand.notes s.shared.log
    List.Subperm (s.shared.state.mailedBy .expiry) (told.map Notice.mail) ∧
      (∀ n ∈ told, ∃ email documentName unsigned, n.mail = .expired email documentName unsigned ∧
        ∀ row, n.before = some row → row.senderEmail = some email) ∧
      (ToldOnce told ↔ ∀ n ∈ told, n.retires = true) := by
  have hassumed := Reaches.assume (fun _ _ => True)
    (fun s l s' h _ hstep => noticing_step s l s' h hstep) hs (noticing_start sending now)
  have hnoticed := ((noticedOutline cfg).holds_of_reaches hassumed (noticed_start hsend)).shared
  have hgiven := Reaches.given_subperm Proc.notice
    (fun s p c sh l' hok hact => (act_noticeStep (p := p) (hok.2.paired.proc p) hact).deals)
    hassumed (fun p => by simp only [start]; split <;> rfl)
  refine ⟨?_, hnoticed.addressed, hnoticed.inTurn.toldOnce_iff⟩
  rw [hnoticed.mailed, hnoticed.taken]
  exact hgiven

/-! ## Two sweeps, and a signature at the last moment -/

/-- Replay a schedule right after a send whose sender has an address, with the notices on record. -/
def expireExample (schedule : List (Label Choice Event)) :
    Option (System (Logged World (Errand Notice Mail)) Proc) :=
  match send exampleConfig (some exampleTemplate) exampleSigner (some (js "owner@sign.uz")) 0 with
  | .ok sending => (noticingService exampleConfig).run (start sending 0).logging schedule
  | .error _ => none

/-- One sweep after another. -/
theorem told_once_one_by_one :
    ∃ s, expireExample ([.env (.clock (15 * dayMs))] ++ exampleCall 2 .sweepExpiredEnvelopes 5 ++
        exampleCall 3 .sweepExpiredEnvelopes 1) = some s ∧
      (s.shared.state.mailedBy .expiry).length = 1 ∧ ToldOnce (Errand.notes s.shared.log) := by
  have hrun : ((expireExample ([.env (.clock (15 * dayMs))] ++ exampleCall 2 .sweepExpiredEnvelopes 5 ++
      exampleCall 3 .sweepExpiredEnvelopes 1)).map fun s => ((s.shared.state.mailedBy .expiry).length,
        (Errand.notes s.shared.log).all Notice.retires)) = some (1, true) := by
    decide +kernel
  obtain ⟨s, hs, heq⟩ := Option.map_eq_some_iff.mp hrun
  obtain ⟨hone, hretires⟩ := Prod.mk.inj heq
  refine ⟨s, hs, hone, ?_⟩
  unfold expireExample at hs
  split at hs
  · rename_i sending hsend
    have hreaches : Reaches (noticingService exampleConfig) (fun _ _ => True) _ s :=
      Reaches.of_run (fun _ _ _ => trivial) hs
    exact (told_once_iff hsend hreaches).2.2.mpr (List.all_eq_true.mp hretires)
  · cases hs

/-- Two sweeps have read the envelope before either commits, and the sender is told twice; and a sweep has
read it when the last signature completes it, and the sender of a completed document is told that it
expired. -/
theorem told_twice_or_wrongly :
    (∃ s, expireExample ([.env (.clock (15 * dayMs))] ++ exampleCall 2 .sweepExpiredEnvelopes 3 ++
          exampleCall 3 .sweepExpiredEnvelopes 3 ++ List.replicate 2 (.proc 2 .next) ++
          List.replicate 2 (.proc 3 .next)) = some s ∧
        (s.shared.state.mailedBy .expiry).length = 2 ∧ ¬ ToldOnce (Errand.notes s.shared.log)) ∧
    ∃ s, expireExample (exampleConsent 1 0 ++
          exampleCall 1 (.visit 0 (.submit exampleSignature none none)) 4 ++
          [.env (.clock (15 * dayMs))] ++ exampleCall 2 .sweepExpiredEnvelopes 3 ++
          List.replicate 3 (.proc 1 .next) ++ List.replicate 2 (.proc 2 .next)) = some s ∧
        (s.shared.state.mailedBy .expiry).length = 1 ∧
        (s.shared.state.db.request.map SignatureRequest.status) = some .completed ∧
        ¬ ToldOnce (Errand.notes s.shared.log) := by
  have htwice : ((expireExample ([.env (.clock (15 * dayMs))] ++ exampleCall 2 .sweepExpiredEnvelopes 3 ++
      exampleCall 3 .sweepExpiredEnvelopes 3 ++ List.replicate 2 (.proc 2 .next) ++
      List.replicate 2 (.proc 3 .next))).map fun s =>
        ((s.shared.state.mailedBy .expiry).length, (Errand.notes s.shared.log).length)) = some (2, 2) := by
    decide +kernel
  have hcompleted : ((expireExample (exampleConsent 1 0 ++
      exampleCall 1 (.visit 0 (.submit exampleSignature none none)) 4 ++
      [.env (.clock (15 * dayMs))] ++ exampleCall 2 .sweepExpiredEnvelopes 3 ++
      List.replicate 3 (.proc 1 .next) ++ List.replicate 2 (.proc 2 .next))).map fun s =>
        ((s.shared.state.mailedBy .expiry).length,
          s.shared.state.db.request.map SignatureRequest.status,
          (Errand.notes s.shared.log).any fun n => n.after.all fun row => row.status != .expired)) =
      some (1, some .completed, true) := by
    decide +kernel
  obtain ⟨s, hs, heq⟩ := Option.map_eq_some_iff.mp htwice
  obtain ⟨s', hs', heq'⟩ := Option.map_eq_some_iff.mp hcompleted
  simp only [Prod.mk.injEq] at heq heq'
  refine ⟨⟨s, hs, heq.1, fun hgood => ?_⟩, s', hs', heq'.1, heq'.2.1, fun hgood => ?_⟩
  · have honce := hgood.once
    rw [heq.2] at honce
    omega
  · obtain ⟨n, hn, hall⟩ := List.any_eq_true.mp heq'.2.2
    obtain ⟨row, hrow, hstatus⟩ := hgood.expired n hn
    rw [hrow] at hall
    simp [hstatus] at hall

end ESignSoft.Envelope
