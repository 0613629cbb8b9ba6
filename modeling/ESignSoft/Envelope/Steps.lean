import ESignSoft.Envelope.Service
import ESignSoft.Envelope.Writes

/-!
# What one step of a process can do

`Next` lists the steps a process takes when nothing goes wrong, each with what it read.  Only a commit
touches the rows and the history of signatures; every other step leaves them as they are
(`Next.readies`).

* `next_spec` — there is no other step;
* `act_cases` — a step of a process is a call, a `Next`, a failed enqueue or a crash;
* `act_spec` — what that means for the rows: it commits the transaction that was about to commit, or it
  leaves them alone and gets a transaction ready (`Prepares`).
-/

namespace ESignSoft.Envelope

open ESignSoft.Lib.JsText ESignSoft.Lib.Table ESignSoft.Lib.Interleaving
open ESignSoft.Contracts ESignSoft.Signing

/-- Where a process may end its call without a further step. -/
def Proc.mayEnd (w : World) : Proc → Prop
  | .idle | .done _ => False
  | .writing _ _ => False
  | .advancing _ _ => advanceEnvelope w.db = .nothing
  | .inviting _ invites => invites = []
  | .completing => False
  | .sending jobs => jobs = []
  | .notifying jobs => jobs = []
  | _ => True

inductive Next (cfg : Config) (w : World) : Proc → World → Proc → Prop
  | stop (l : Proc) (a : Answer) (h : l.mayEnd w) : Next cfg w l w (.done a)
  | resolved (token : Nat) (visit : Visit) (recipientId : Option Nat)
      (h : resolve w.db (.sha256 token) = some recipientId) :
      Next cfg w (.resolving token visit) w (.requestReading token visit recipientId)
  | foundRequest (token : Nat) (visit : Visit) (id : Nat) (row : SignatureRequest)
      (hrow : w.db.request = some row) (hlive : w.now < row.expiresAt) (hvoided : row.status ≠ .voided) :
      Next cfg w (.requestReading token visit (some id)) w (.recipientReading token visit id row)
  | loadedLegacy (token : Nat) (visit : Visit) (row : SignatureRequest) (hrow : w.db.request = some row)
      (hhash : row.signingTokenHash = some (.sha256 token)) :
      Next cfg w (.requestReading token visit none) w
        (.loaded token visit (.ofLegacy row (.sha256 token)))
  | loaded (token : Nat) (visit : Visit) (id : Nat) (row : SignatureRequest) (rc : Recipient)
      (hrc : w.db.findRecipient id = some rc) (hhash : rc.signingTokenHash = some (.sha256 token))
      (hopen : rc.open_ = true) :
      Next cfg w (.recipientReading token visit id row) w
        (.loaded token visit (.ofRecipient row rc (.sha256 token)))
  | viewing (token : Nat) (ip ua : Option JsString) (req : LoadedRequest) (hviewed : req.viewed = false) :
      Next cfg w (.loaded token (.view ip ua) req) w
        (.writing (req.viewWrite w.now ip ua) (.answer (.view req.signerView)))
  | consenting (token : Nat) (req : LoadedRequest) (hconsent : req.consentAt = none) :
      Next cfg w (.loaded token .consent req) w (.writing (req.consentWrite w.now) (.answer .ok))
  | claiming (token : Nat) (dto : SubmitSignature) (ip ua : Option JsString) (req : LoadedRequest)
      (data : ClaimData) (hdata : claimData cfg req dto ip ua w.now w.images = some data) :
      Next cfg w (.loaded token (.submit dto ip ua) req) { w with images := w.images + 1 }
        (.writing (req.claimWrite data) (.claimed token req.documentName w.now))
  | commit (write : Write) (k : Kont) :
      Next cfg w (.writing write k) (w.commit write k) (k.after write w.db)
  | complete (documentName : JsString) (now : Int) (h : advanceEnvelope w.db = .complete) :
      Next cfg w (.advancing documentName now) w (.writing (.completed now) .completed)
  | handOff (documentName : JsString) (now : Int) (group : List Recipient)
      (h : advanceEnvelope w.db = .handOff group) :
      Next cfg w (.advancing documentName now) { w with minted := w.minted + mintCount group }
        (.writing (.handedOff (handOffs (mintGroup group w.minted)) now)
          (.handedOff documentName (handOffInvites (mintGroup group w.minted))))
  | invite (documentName : JsString) (invite : PendingInvite × Bool) (rest : List (PendingInvite × Bool)) :
      Next cfg w (.inviting documentName (invite :: rest)) (w.enqueue (invite.1.job documentName))
        (.inviting documentName rest)
  | enqueueCompletion :
      Next cfg w .completing (w.enqueue ⟨.complete, .complete⟩) (.done .ok)
  | enqueueFirst (job : Job) (rest : List Job) :
      Next cfg w (.sending (job :: rest)) (w.enqueue job) (.sending rest)
  | voidRead (reason : Option JsString) (row : SignatureRequest) (people : List Recipient)
      (hrow : w.db.request = some row) :
      Next cfg w (.voidReading reason) w (.voidUpdating people row.documentName reason w.now)
  | voidUpdate (people : List Recipient) (documentName : JsString) (reason : Option JsString) (now : Int)
      (jobs : List Job) :
      Next cfg w (.voidUpdating people documentName reason now) w
        (.writing (.voided (passedOver w.db) now) (.notify jobs))
  | notify (job : Job) (rest : List Job) :
      Next cfg w (.notifying (job :: rest)) (w.enqueue job) (.notifying rest)
  | remindRead (id : Nat) : Next cfg w (.remindReading id) w (.remindRecipientReading id)
  | remindRecipient (id : Nat) : Next cfg w (.remindRecipientReading id) w (.resendReading id)
  | resendRead (id : Nat) (row : SignatureRequest) (hrow : w.db.request = some row)
      (hopen : row.open_ = true) : Next cfg w (.resendReading id) w (.resendRecipientReading id row)
  | resend (id : Nat) (row : SignatureRequest) (rc : Recipient) (job : Job)
      (hrc : w.db.findRecipient id = some rc) (hrole : rc.role = .signer)
      (hcompleted : rc.status ≠ .completed) (hpending : rc.status ≠ .pending) :
      Next cfg w (.resendRecipientReading id row) { w with minted := w.minted + 1 }
        (.writing (.resent id w.minted w.now) (.notify [job]))
  | expireFind (h : findExpired w.db w.now = true) : Next cfg w .expireFinding w .expireReading
  | expireRead (row : SignatureRequest) (unsigned : List JsString) (hrow : w.db.request = some row) :
      Next cfg w .expireReading w (.expireUpdating row unsigned)
  | expireUpdate (row : SignatureRequest) (unsigned : List JsString) (mail : Option Mail) :
      Next cfg w (.expireUpdating row unsigned) w
        (.writing (.expired (passedOver w.db) row.expiredNotifiedAt.isSome w.now) (.expired mail))
  | mailExpired (mail : Mail) : Next cfg w (.expiredMailing mail) (w.mail mail) (.done (.swept 1))
  | reminderFind (total : Nat) :
      Next cfg w .reminderFinding w (.reminding (findRecipientsToRemind cfg w.db w.now) total)
  | remindSkip (id : Nat) (rest : List Nat) (total : Nat) :
      Next cfg w (.reminding (id :: rest) total) w (.reminding rest total)
  | remindNext (id : Nat) (rest : List Nat) (total : Nat) (rc : Recipient)
      (hrc : w.db.findRecipient id = some rc) :
      Next cfg w (.reminding (id :: rest) total) w (.reminderRequestReading rc rest total)
  | remindDrop (rc : Recipient) (rest : List Nat) (total : Nat) :
      Next cfg w (.reminderRequestReading rc rest total) w (.reminding rest total)
  | remind (rc : Recipient) (rest : List Nat) (total : Nat) (mail : Mail)
      (hcompleted : rc.status ≠ .completed) :
      Next cfg w (.reminderRequestReading rc rest total) { w with minted := w.minted + 1 }
        (.writing (.reminded rc.id w.minted rc.reminderCount w.now) (.reminded mail rest total))
  | mailReminder (mail : Mail) (rest : List Nat) (total : Nat) :
      Next cfg w (.reminderMailing mail rest total) (w.mail mail) (.reminding rest total)

private theorem Next.of_eq {cfg : Config} {w w' w₁ : World} {l l' l₁ : Proc}
    (h : some (w₁, l₁) = some (w', l')) (hnext : Next cfg w l w₁ l₁) : Next cfg w l w' l' := by
  obtain ⟨rfl, rfl⟩ := Prod.mk.inj (Option.some.inj h)
  exact hnext

theorem next_visit {cfg : Config} {w w' : World} {token : Nat} {visit : Visit} {req : LoadedRequest}
    {l' : Proc} (h : next cfg w (.loaded token visit req) = some (w', l')) :
    Next cfg w (.loaded token visit req) w' l' := by
  cases visit with
  | view ip ua =>
      simp only [next] at h
      split at h
      · exact Next.of_eq h (Next.stop _ _ trivial)
      · rename_i hviewed
        exact Next.of_eq h (Next.viewing token ip ua req (Bool.eq_false_iff.mpr hviewed))
  | consent =>
      simp only [next] at h
      split at h
      · rename_i hconsent
        exact Next.of_eq h (Next.consenting token req hconsent)
      · exact Next.of_eq h (Next.stop _ _ trivial)
  | submit dto ip ua =>
      simp only [next] at h
      split at h
      · exact Next.of_eq h (Next.stop _ _ trivial)
      · rename_i data hdata
        exact Next.of_eq h (Next.claiming token dto ip ua req data hdata)

theorem next_requestReading {cfg : Config} {w w' : World} {token : Nat} {visit : Visit}
    {recipientId : Option Nat} {l' : Proc}
    (h : next cfg w (.requestReading token visit recipientId) = some (w', l')) :
    Next cfg w (.requestReading token visit recipientId) w' l' := by
  simp only [next] at h
  split at h
  · exact Next.of_eq h (Next.stop _ _ trivial)
  · rename_i row hrow
    split at h
    · exact Next.of_eq h (Next.stop _ _ trivial)
    · rename_i hlive
      split at h
      · exact Next.of_eq h (Next.stop _ _ trivial)
      · rename_i hvoided
        split at h
        · rename_i id
          exact Next.of_eq h (Next.foundRequest token visit id row hrow (by omega) hvoided)
        · split at h
          · rename_i hhash
            exact Next.of_eq h (Next.loadedLegacy token visit row hrow hhash.1)
          · exact Next.of_eq h (Next.stop _ _ trivial)

theorem next_resendRecipientReading {cfg : Config} {w w' : World} {id : Nat} {row : SignatureRequest}
    {l' : Proc} (h : next cfg w (.resendRecipientReading id row) = some (w', l')) :
    Next cfg w (.resendRecipientReading id row) w' l' := by
  simp only [next] at h
  split at h
  · exact Next.of_eq h (Next.stop _ _ trivial)
  · rename_i rc hrc
    split at h
    · exact Next.of_eq h (Next.stop _ _ trivial)
    · rename_i hrole
      split at h
      · exact Next.of_eq h (Next.stop _ _ trivial)
      · rename_i hcompleted
        split at h
        · exact Next.of_eq h (Next.stop _ _ trivial)
        · rename_i hpending
          split at h
          · exact Next.of_eq h (Next.stop _ _ trivial)
          · exact Next.of_eq h
              (Next.resend id row rc _ hrc (not_not.mp hrole) hcompleted hpending)

theorem next_spec {cfg : Config} {w w' : World} {l l' : Proc} (h : next cfg w l = some (w', l')) :
    Next cfg w l w' l' := by
  cases l with
  | idle => cases h
  | done a => cases h
  | resolving token visit =>
      simp only [next] at h
      split at h
      · exact Next.of_eq h (Next.stop _ _ trivial)
      · rename_i recipientId hfound
        exact Next.of_eq h (Next.resolved token visit recipientId hfound)
  | requestReading token visit recipientId => exact next_requestReading h
  | recipientReading token visit id row =>
      simp only [next] at h
      split at h
      · exact Next.of_eq h (Next.stop _ _ trivial)
      · rename_i rc hrc
        split at h
        · rename_i hhash
          exact Next.of_eq h (Next.loaded token visit id row rc hrc hhash.1 hhash.2)
        · exact Next.of_eq h (Next.stop _ _ trivial)
  | loaded token visit req => exact next_visit h
  | writing write k => exact Next.of_eq h (Next.commit write k)
  | advancing documentName now =>
      simp only [next] at h
      split at h
      · rename_i hnothing
        exact Next.of_eq h (Next.stop _ _ hnothing)
      · rename_i hcomplete
        exact Next.of_eq h (Next.complete documentName now hcomplete)
      · rename_i group hgroup
        exact Next.of_eq h (Next.handOff documentName now group hgroup)
  | inviting documentName invites =>
      cases invites with
      | nil => exact Next.of_eq h (Next.stop _ _ rfl)
      | cons invite rest => exact Next.of_eq h (Next.invite documentName invite rest)
  | completing => exact Next.of_eq h Next.enqueueCompletion
  | sending jobs =>
      cases jobs with
      | nil => exact Next.of_eq h (Next.stop _ _ rfl)
      | cons job rest => exact Next.of_eq h (Next.enqueueFirst job rest)
  | voidReading reason =>
      simp only [next] at h
      split at h
      · exact Next.of_eq h (Next.stop _ _ trivial)
      · rename_i row hrow
        split at h
        · exact Next.of_eq h (Next.stop _ _ trivial)
        · split at h
          · exact Next.of_eq h (Next.stop _ _ trivial)
          · exact Next.of_eq h (Next.voidRead reason row _ hrow)
  | voidUpdating people documentName reason now =>
      exact Next.of_eq h (Next.voidUpdate people documentName reason now _)
  | notifying jobs =>
      cases jobs with
      | nil => exact Next.of_eq h (Next.stop _ _ rfl)
      | cons job rest => exact Next.of_eq h (Next.notify job rest)
  | remindReading id =>
      simp only [next] at h
      split at h
      · exact Next.of_eq h (Next.stop _ _ trivial)
      · split at h
        · exact Next.of_eq h (Next.remindRead id)
        · exact Next.of_eq h (Next.stop _ _ trivial)
  | remindRecipientReading id =>
      simp only [next] at h
      split at h
      · exact Next.of_eq h (Next.stop _ _ trivial)
      · split at h
        · exact Next.of_eq h (Next.stop _ _ trivial)
        · split at h
          · exact Next.of_eq h (Next.stop _ _ trivial)
          · exact Next.of_eq h (Next.remindRecipient id)
  | resendReading id =>
      simp only [next] at h
      split at h
      · exact Next.of_eq h (Next.stop _ _ trivial)
      · rename_i row hrow
        split at h
        · rename_i hopen
          exact Next.of_eq h (Next.resendRead id row hrow hopen)
        · exact Next.of_eq h (Next.stop _ _ trivial)
  | resendRecipientReading id row => exact next_resendRecipientReading h
  | expireFinding =>
      simp only [next] at h
      split at h
      · rename_i hfind
        exact Next.of_eq h (Next.expireFind hfind)
      · exact Next.of_eq h (Next.stop _ _ trivial)
  | expireReading =>
      simp only [next] at h
      split at h
      · exact Next.of_eq h (Next.stop _ _ trivial)
      · rename_i row hrow
        exact Next.of_eq h (Next.expireRead row _ hrow)
  | expireUpdating row unsigned => exact Next.of_eq h (Next.expireUpdate row unsigned _)
  | expiredMailing mail => exact Next.of_eq h (Next.mailExpired mail)
  | reminderFinding => exact Next.of_eq h (Next.reminderFind _)
  | reminding due total =>
      cases due with
      | nil => exact Next.of_eq h (Next.stop _ _ trivial)
      | cons id rest =>
          simp only [next] at h
          split at h
          · exact Next.of_eq h (Next.remindSkip id rest total)
          · rename_i rc hrc
            exact Next.of_eq h (Next.remindNext id rest total rc hrc)
  | reminderRequestReading rc rest total =>
      simp only [next] at h
      split at h
      · exact Next.of_eq h (Next.remindDrop rc rest total)
      · split at h
        · exact Next.of_eq h (Next.remindDrop rc rest total)
        · rename_i hcompleted
          exact Next.of_eq h (Next.remind rc rest total _ hcompleted)
  | reminderMailing mail rest total => exact Next.of_eq h (Next.mailReminder mail rest total)

/-- A failed enqueue leaves the rows alone; a send goes on to roll back. -/
theorem failEnqueue_spec {taken : Bool} {w w' : World} {l l' : Proc}
    (h : failEnqueue taken w l = some (w', l')) :
    (∃ q, w' = { w with queue := q }) ∧
      ((∃ documentName invite rest, l = .inviting documentName (invite :: rest) ∧
          l' = .inviting documentName rest) ∨
        (l = .completing ∧ l' = .done .ok) ∨
        (∃ job rest, l = .notifying (job :: rest) ∧ l' = .notifying rest) ∨
        ∃ job rest a, l = .sending (job :: rest) ∧ l' = .writing .deleted (.answer a)) := by
  have hqueue : ∀ job, ∃ q, (if taken = true then w.enqueue job else w) = { w with queue := q } := by
    intro job
    cases taken
    · exact ⟨w.queue, rfl⟩
    · exact ⟨w.queue.add job, rfl⟩
  unfold failEnqueue at h
  split at h
  · obtain ⟨rfl, rfl⟩ := Prod.mk.inj (Option.some.inj h)
    exact ⟨hqueue _, Or.inl ⟨_, _, _, rfl, rfl⟩⟩
  · obtain ⟨rfl, rfl⟩ := Prod.mk.inj (Option.some.inj h)
    exact ⟨hqueue _, Or.inr (Or.inl ⟨rfl, rfl⟩)⟩
  · obtain ⟨rfl, rfl⟩ := Prod.mk.inj (Option.some.inj h)
    exact ⟨hqueue _, Or.inr (Or.inr (Or.inl ⟨_, _, rfl, rfl⟩))⟩
  · obtain ⟨rfl, rfl⟩ := Prod.mk.inj (Option.some.inj h)
    exact ⟨hqueue _, Or.inr (Or.inr (Or.inr ⟨_, _, _, rfl, rfl⟩))⟩
  · cases h

/-- A step of a process, by what was chosen for it. -/
theorem act_cases {cfg : Config} {p : Nat} {c : Choice} {w w' : World} {l l' : Proc}
    (h : act cfg p c w l = some (w', l')) :
    (∃ call, c = .call call ∧ l.atRest = true ∧ w' = w ∧ l' = call.begin) ∨
    (c = .next ∧ Next cfg w l w' l') ∨
    (∃ taken, c = .fail taken ∧ failEnqueue taken w l = some (w', l')) ∨
    (c = .crash ∧ l.atRest = false ∧ w' = w ∧ l' = .done .failed) := by
  cases c with
  | call call =>
      simp only [act] at h
      split at h
      · rename_i hrest
        obtain ⟨rfl, rfl⟩ := Prod.mk.inj (Option.some.inj h)
        exact Or.inl ⟨call, rfl, hrest, rfl, rfl⟩
      · cases h
  | next => exact Or.inr (Or.inl ⟨rfl, next_spec h⟩)
  | fail taken => exact Or.inr (Or.inr (Or.inl ⟨taken, rfl, h⟩))
  | crash =>
      simp only [act] at h
      split at h
      · cases h
      · rename_i hrest
        obtain ⟨rfl, rfl⟩ := Prod.mk.inj (Option.some.inj h)
        exact Or.inr (Or.inr (Or.inr ⟨rfl, Bool.eq_false_iff.mpr hrest, rfl, rfl⟩))

/-! ## What a step means for the rows -/

/-- The rows and the history are the same; tokens may have been minted. -/
structure SameRows (w w' : World) : Prop where
  db : w'.db = w.db
  signings : w'.signings = w.signings
  minted : w.minted ≤ w'.minted

/-- The transaction a process is about to commit. -/
def Proc.pending : Proc → Option (Write × Kont)
  | .writing write k => some (write, k)
  | _ => none

/-- The recipients a reminder sweep has still to look at. -/
def Proc.due : Proc → List Nat
  | .reminding due _ => due
  | .reminderRequestReading rc rest _ => rc.id :: rest
  | .writing _ (.reminded _ rest _) => rest
  | .reminderMailing _ rest _ => rest
  | _ => []

/-- How a transaction gets ready on the rows of `w`, with the tokens minted by then. -/
inductive Prepares (cfg : Config) (w : World) : Proc → Write → Kont → Nat → Prop
  | viewed (token : Nat) (ip ua : Option JsString) (req : LoadedRequest) (a : Answer) :
      Prepares cfg w (.loaded token (.view ip ua) req) (req.viewWrite w.now ip ua) (.answer a) w.minted
  | consented (token : Nat) (req : LoadedRequest) (a : Answer) (hconsent : req.consentAt = none) :
      Prepares cfg w (.loaded token .consent req) (req.consentWrite w.now) (.answer a) w.minted
  | claimed (token : Nat) (dto : SubmitSignature) (ip ua : Option JsString) (req : LoadedRequest)
      (data : ClaimData) (hdata : claimData cfg req dto ip ua w.now w.images = some data) :
      Prepares cfg w (.loaded token (.submit dto ip ua) req) (req.claimWrite data)
        (.claimed token req.documentName w.now) w.minted
  | completed (documentName : JsString) (now : Int) (h : advanceEnvelope w.db = .complete) :
      Prepares cfg w (.advancing documentName now) (.completed now) .completed w.minted
  | handedOff (documentName : JsString) (now : Int) (group : List Recipient)
      (h : advanceEnvelope w.db = .handOff group) :
      Prepares cfg w (.advancing documentName now)
        (.handedOff (handOffs (mintGroup group w.minted)) now)
        (.handedOff documentName (handOffInvites (mintGroup group w.minted)))
        (w.minted + mintCount group)
  | voided (people : List Recipient) (documentName : JsString) (reason : Option JsString) (now : Int)
      (jobs : List Job) :
      Prepares cfg w (.voidUpdating people documentName reason now)
        (.voided (passedOver w.db) now) (.notify jobs) w.minted
  | resent (id : Nat) (row : SignatureRequest) (rc : Recipient) (job : Job)
      (hrc : w.db.findRecipient id = some rc) (hrole : rc.role = .signer)
      (hcompleted : rc.status ≠ .completed) (hpending : rc.status ≠ .pending) :
      Prepares cfg w (.resendRecipientReading id row) (.resent id w.minted w.now) (.notify [job])
        (w.minted + 1)
  | expired (row : SignatureRequest) (unsigned : List JsString) (mail : Option Mail) :
      Prepares cfg w (.expireUpdating row unsigned)
        (.expired (passedOver w.db) row.expiredNotifiedAt.isSome w.now) (.expired mail) w.minted
  | reminded (rc : Recipient) (rest : List Nat) (total : Nat) (mail : Mail)
      (hcompleted : rc.status ≠ .completed) :
      Prepares cfg w (.reminderRequestReading rc rest total)
        (.reminded rc.id w.minted rc.reminderCount w.now) (.reminded mail rest total) (w.minted + 1)
  | deleted (jobs : List Job) (a : Answer) :
      Prepares cfg w (.sending jobs) .deleted (.answer a) w.minted

/-- How a link is loaded. -/
inductive Loads (w : World) (token : Nat) : LoadedRequest → Prop
  | recipient (row : SignatureRequest) (rc : Recipient) (hrc : rc ∈ w.db.recipients)
      (hhash : rc.signingTokenHash = some (.sha256 token)) (hopen : rc.open_ = true) :
      Loads w token (.ofRecipient row rc (.sha256 token))
  | legacy (row : SignatureRequest) (hrow : w.db.request = some row)
      (hhash : row.signingTokenHash = some (.sha256 token)) :
      Loads w token (.ofLegacy row (.sha256 token))

/-- What a step that does not commit leaves behind. -/
structure Readies (cfg : Config) (w : World) (l : Proc) (w' : World) (l' : Proc) : Prop where
  same : SameRows w w'
  now : w'.now = w.now
  pending : ∀ write k, l'.pending = some (write, k) → Prepares cfg w l write k w'.minted
  due : ∀ id ∈ l'.due, id ∈ l.due ∨ id ∈ findRecipientsToRemind cfg w.db w.now
  loaded : ∀ token visit req, l' = .loaded token visit req → Loads w token req

theorem Db.findRecipient_mem {db : Db} {id : Nat} {r : Recipient} (h : db.findRecipient id = some r) :
    r ∈ db.recipients ∧ r.id = id := by
  unfold Db.findRecipient at h
  exact ⟨List.mem_of_find?_eq_some h, by simpa using List.find?_some h⟩

/-- A step to a process that has nothing in hand. -/
private theorem Readies.quiet {cfg : Config} {w w' : World} {l l' : Proc} (same : SameRows w w')
    (now : w'.now = w.now) (hpending : l'.pending = none) (hdue : ∀ id ∈ l'.due, id ∈ l.due)
    (hloaded : ∀ token visit req, l' ≠ .loaded token visit req) : Readies cfg w l w' l' where
  same := same
  now := now
  pending write k h := by
    rw [hpending] at h
    cases h
  due id hid := Or.inl (hdue id hid)
  loaded token visit req h := absurd h (hloaded token visit req)

/-- A step that gets a transaction ready. -/
private theorem Readies.of_prepares {cfg : Config} {w w' : World} {l : Proc} {write : Write} {k : Kont}
    (same : SameRows w w') (now : w'.now = w.now) (hprepares : Prepares cfg w l write k w'.minted)
    (hdue : ∀ id ∈ (Proc.writing write k).due, id ∈ l.due) : Readies cfg w l w' (.writing write k) where
  same := same
  now := now
  pending write' k' h := by
    obtain ⟨rfl, rfl⟩ := Prod.mk.inj (Option.some.inj h)
    exact hprepares
  due id hid := Or.inl (hdue id hid)
  loaded token visit req h := by cases h

theorem SameRows.refl (w : World) : SameRows w w := ⟨rfl, rfl, le_refl _⟩

theorem SameRows.minting (w : World) (n : Nat) : SameRows w { w with minted := w.minted + n } :=
  ⟨rfl, rfl, Nat.le_add_right _ _⟩

theorem Next.readies {cfg : Config} {w w' : World} {l l' : Proc} (h : Next cfg w l w' l')
    (hl : ∀ write k, l ≠ .writing write k) : Readies cfg w l w' l' := by
  cases h with
  | commit write k => exact absurd rfl (hl write k)
  -- What is loaded is a row as it was read, link and all.
  | loadedLegacy token visit row hrow hhash =>
      refine ⟨SameRows.refl w, rfl, by simp [Proc.pending], by simp [Proc.due], ?_⟩
      intro token' visit' req hreq
      obtain ⟨rfl, rfl, rfl⟩ := Proc.loaded.inj hreq
      exact Loads.legacy row hrow hhash
  | loaded token visit id row rc hrc hhash hopen =>
      refine ⟨SameRows.refl w, rfl, by simp [Proc.pending], by simp [Proc.due], ?_⟩
      intro token' visit' req hreq
      obtain ⟨rfl, rfl, rfl⟩ := Proc.loaded.inj hreq
      exact Loads.recipient row rc (Db.findRecipient_mem hrc).1 hhash hopen
  -- Transactions that get ready, each with the tokens it mints.
  | viewing token ip ua req hviewed =>
      exact Readies.of_prepares (SameRows.refl w) rfl (Prepares.viewed token ip ua req _) (by simp [Proc.due])
  | consenting token req hconsent =>
      exact Readies.of_prepares (SameRows.refl w) rfl (Prepares.consented token req _ hconsent)
        (by simp [Proc.due])
  | claiming token dto ip ua req data hdata =>
      exact Readies.of_prepares ⟨rfl, rfl, le_refl _⟩ rfl (Prepares.claimed token dto ip ua req data hdata)
        (by simp [Proc.due])
  | complete documentName now h =>
      exact Readies.of_prepares (SameRows.refl w) rfl (Prepares.completed documentName now h)
        (by simp [Proc.due])
  | handOff documentName now group h =>
      exact Readies.of_prepares (SameRows.minting w _) rfl (Prepares.handedOff documentName now group h)
        (by simp [Proc.due])
  | voidUpdate people documentName reason now jobs =>
      exact Readies.of_prepares (SameRows.refl w) rfl (Prepares.voided people documentName reason now jobs)
        (by simp [Proc.due])
  | resend id row rc job hrc hrole hcompleted hpending =>
      exact Readies.of_prepares (SameRows.minting w 1) rfl
        (Prepares.resent id row rc job hrc hrole hcompleted hpending) (by simp [Proc.due])
  | expireUpdate row unsigned mail =>
      exact Readies.of_prepares (SameRows.refl w) rfl (Prepares.expired row unsigned mail)
        (by simp [Proc.due])
  | remind rc rest total mail hcompleted =>
      exact Readies.of_prepares (SameRows.minting w 1) rfl (Prepares.reminded rc rest total mail hcompleted)
        (by simp +contextual [Proc.due])
  -- A sweep only ever looks at recipients it has found due.
  | reminderFind total =>
      exact ⟨SameRows.refl w, rfl, by simp [Proc.pending], fun id hid => Or.inr hid, by simp⟩
  | remindSkip id rest total =>
      exact Readies.quiet (SameRows.refl w) rfl rfl (by simp +contextual [Proc.due]) (by simp)
  | remindNext id rest total rc hrc =>
      refine Readies.quiet (SameRows.refl w) rfl rfl ?_ (by simp)
      simp [Proc.due, (Db.findRecipient_mem hrc).2]
  | remindDrop rc rest total =>
      exact Readies.quiet (SameRows.refl w) rfl rfl (by simp +contextual [Proc.due]) (by simp)
  | mailReminder mail rest total =>
      exact Readies.quiet ⟨rfl, rfl, le_refl _⟩ rfl rfl (fun id hid => hid) (by simp)
  | _ => exact Readies.quiet ⟨rfl, rfl, le_refl _⟩ rfl rfl (by simp [Proc.due]) (by simp)

/-- What a process goes on to do after its commit on the rows `db`. -/
inductive Kont.Follows (db : Db) : Kont → Proc → Prop
  | done (k : Kont) (a : Answer) : Follows db k (.done a)
  | advancing (token : Nat) (documentName : JsString) (now : Int) :
      Follows db (.claimed token documentName now) (.advancing documentName now)
  | legacyClaimed (token : Nat) (documentName : JsString) (now : Int) :
      Follows db (.claimed token documentName now) .completing
  | completing : Follows db .completed .completing
  | inviting (documentName : JsString) (prepared : List PendingInvite) :
      Follows db (.handedOff documentName prepared)
        (.inviting documentName (prepared.map fun i => (i, storesInvite db i)))
  | notifying (jobs : List Job) : Follows db (.notify jobs) (.notifying jobs)
  | mailing (mail : Mail) : Follows db (.expired (some mail)) (.expiredMailing mail)
  | reminderMailing (mail : Mail) (rest : List Nat) (total : Nat) :
      Follows db (.reminded mail rest total) (.reminderMailing mail rest total)
  | reminding (mail : Mail) (rest : List Nat) (total : Nat) :
      Follows db (.reminded mail rest total) (.reminding rest total)

theorem Kont.follows_after (k : Kont) (w : Write) (db : Db) : Follows db k (k.after w db) := by
  cases k with
  | answer a => exact Follows.done _ a
  | claimed token documentName now =>
      simp only [Kont.after]
      split
      · cases w with
        | claimed id hash data => exact Follows.advancing token documentName now
        | _ => exact Follows.legacyClaimed token documentName now
      · exact Follows.done _ _
  | completed => exact Follows.completing
  | handedOff documentName prepared => exact Follows.inviting documentName prepared
  | notify jobs => exact Follows.notifying jobs
  | expired mail =>
      cases mail with
      | none => exact Follows.done _ _
      | some mail => exact Follows.mailing mail
  | reminded mail rest total =>
      simp only [Kont.after]
      split
      · exact Follows.reminderMailing mail rest total
      · exact Follows.reminding mail rest total

/-- After a commit a process has no transaction in hand. -/
theorem Kont.pending_after (k : Kont) (w : Write) (db : Db) : (k.after w db).pending = none := by
  have hfollows := k.follows_after w db
  generalize k.after w db = l at hfollows ⊢
  cases hfollows <;> rfl

theorem Kont.due_after (k : Kont) (w : Write) (db : Db) :
    ∀ id ∈ (k.after w db).due, id ∈ (Proc.writing w k).due := by
  have hfollows := k.follows_after w db
  generalize k.after w db = l at hfollows ⊢
  cases hfollows <;> simp [Proc.due]

theorem Kont.after_ne_loaded (k : Kont) (w : Write) (db : Db) (token : Nat) (visit : Visit)
    (req : LoadedRequest) : k.after w db ≠ .loaded token visit req := by
  have hfollows := k.follows_after w db
  generalize k.after w db = l at hfollows ⊢
  cases hfollows <;> simp

/-- A step of a process commits the transaction in hand, or touches no row. -/
theorem act_spec {cfg : Config} {p : Nat} {c : Choice} {w w' : World} {l l' : Proc}
    (h : act cfg p c w l = some (w', l')) :
    (∃ write k, l = .writing write k ∧ c = .next ∧ w' = w.commit write k ∧ l' = k.after write w.db) ∨
      Readies cfg w l w' l' := by
  rcases act_cases h with ⟨call, -, -, rfl, rfl⟩ | ⟨rfl, hnext⟩ | ⟨taken, -, hfail⟩ | ⟨-, -, rfl, rfl⟩
  · refine Or.inr (Readies.quiet (SameRows.refl _) rfl ?_ ?_ ?_)
    all_goals cases call <;> simp [Call.begin, Proc.pending, Proc.due]
  · by_cases hl : ∀ write k, l ≠ .writing write k
    · exact Or.inr (hnext.readies hl)
    · simp only [ne_eq, not_forall, not_not] at hl
      obtain ⟨write, k, rfl⟩ := hl
      cases hnext with
      | stop l a hend => exact hend.elim
      | commit write k => exact Or.inl ⟨write, k, rfl, rfl, rfl, rfl⟩
  · refine Or.inr ?_
    obtain ⟨⟨q, rfl⟩, hcases⟩ := failEnqueue_spec hfail
    have hsame : SameRows w { w with queue := q } := ⟨rfl, rfl, le_refl _⟩
    rcases hcases with ⟨_, _, rest, rfl, rfl⟩ | ⟨rfl, rfl⟩ | ⟨_, rest, rfl, rfl⟩ |
      ⟨job, rest, a, rfl, rfl⟩
    · exact Readies.quiet hsame rfl rfl (by simp [Proc.due]) (by simp)
    · exact Readies.quiet hsame rfl rfl (by simp [Proc.due]) (by simp)
    · exact Readies.quiet hsame rfl rfl (by simp [Proc.due]) (by simp)
    · -- The send rolls back.
      exact Readies.of_prepares hsame rfl (Prepares.deleted (job :: rest) a) (by simp [Proc.due])
  · exact Or.inr (Readies.quiet (SameRows.refl _) rfl rfl (by simp [Proc.due]) (by simp))

/-- The clock and the worker touch no row. -/
theorem env_spec {e : Event} {w w' : World} (h : env e w = some w') : SameRows w w' := by
  cases e <;> obtain rfl := Option.some.inj h <;> exact ⟨rfl, rfl, le_refl _⟩

/-- A step of the services commits the transaction that the process that moves has in hand, or touches
no row. -/
theorem step_rows {cfg : Config} {s s' : System World Proc} {l : Label Choice Event}
    (h : (service cfg).step s l = some s') :
    (∃ p write k, l = .proc p .next ∧ s.procs p = .writing write k ∧
      s'.shared = s.shared.commit write k) ∨ SameRows s.shared s'.shared := by
  cases l with
  | env e =>
      obtain ⟨sh, henv, rfl⟩ := Program.step_env h
      exact Or.inr (env_spec henv)
  | proc p c =>
      obtain ⟨sh, l', hact, rfl⟩ := Program.step_proc h
      rcases act_spec (p := p) hact with ⟨write, k, hl, rfl, rfl, -⟩ | hready
      · exact Or.inl ⟨p, write, k, rfl, hl, rfl⟩
      · exact Or.inr hready.same

/-! ## What is sent after a commit -/

/-- The jobs of a void are its cancellations, the one of a resend is the new link. -/
theorem next_notify {cfg : Config} {w w' : World} {l : Proc} {write : Write} {jobs : List Job}
    (h : next cfg w l = some (w', .writing write (.notify jobs))) :
    (∃ people documentName reason now, l = .voidUpdating people documentName reason now ∧ w' = w ∧
      write = .voided (passedOver w.db) now ∧ jobs = people.map (voidedJob documentName reason)) ∨
    ∃ id row rc, l = .resendRecipientReading id row ∧ w.db.findRecipient id = some rc ∧
      w' = { w with minted := w.minted + 1 } ∧ write = .resent id w.minted w.now ∧
      jobs = [resendJob row rc w.minted w.now] := by
  have hnext := next_spec h
  generalize hl' : Proc.writing write (.notify jobs) = l' at hnext
  cases hnext with
  | commit write' k =>
      have hpending := k.pending_after write' w.db
      rw [← hl'] at hpending
      cases hpending
  | voidUpdate people documentName reason now jobs' =>
      simp only [next, Option.some.injEq, Prod.mk.injEq, Proc.writing.injEq, Kont.notify.injEq] at h
      exact Or.inl ⟨people, documentName, reason, now, rfl, rfl, h.2.1.symm, h.2.2.symm⟩
  | resend id row rc job hrc hrole hcompleted hpending =>
      refine Or.inr ⟨id, row, rc, rfl, hrc, rfl, ?_⟩
      simp only [next, hrc, hrole, hcompleted, hpending, ne_eq, not_true_eq_false, if_false] at h
      split at h
      · simp at h
      · simp only [Option.some.injEq, Prod.mk.injEq, Proc.writing.injEq, Kont.notify.injEq] at h
        exact ⟨h.2.1.symm, h.2.2.symm⟩
  | _ => cases hl'

/-- The mail of a reminder has the new link. -/
theorem next_reminded {cfg : Config} {w w' : World} {l : Proc} {write : Write} {mail : Mail}
    {rest : List Nat} {total : Nat}
    (h : next cfg w l = some (w', .writing write (.reminded mail rest total))) :
    ∃ rc row, l = .reminderRequestReading rc rest total ∧ w' = { w with minted := w.minted + 1 } ∧
      write = .reminded rc.id w.minted rc.reminderCount w.now ∧ mail = reminderMail row rc w.minted w.now := by
  have hnext := next_spec h
  generalize hl' : Proc.writing write (.reminded mail rest total) = l' at hnext
  cases hnext with
  | commit write' k =>
      have hpending := k.pending_after write' w.db
      rw [← hl'] at hpending
      cases hpending
  | remind rc rest' total' mail' hcompleted =>
      simp only [next] at h
      split at h
      · simp at h
      · rename_i row _
        rw [if_neg hcompleted] at h
        simp only [Option.some.injEq, Prod.mk.injEq, Proc.writing.injEq, Kont.reminded.injEq] at h
        obtain ⟨-, hwrite, hmail, rfl, rfl⟩ := h
        exact ⟨rc, row, rfl, rfl, hwrite.symm, hmail.symm⟩
  | _ => cases hl'

end ESignSoft.Envelope
