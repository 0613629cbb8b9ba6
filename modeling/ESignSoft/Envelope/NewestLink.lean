import ESignSoft.Envelope.Invites

/-!
# The newest email

Whoever gives a signer a new link commits its hash first and lets the link out afterwards: the send and the
hand-off through the queue, a resend through the queue, the reminder sweep by mail.  In between the old
link is dead and the new one has not gone out, and whatever goes wrong then leaves the signer with dead
links only.

* `newest_link_works` — as long as no current link is lost and none that is outdated goes out after it, the
  last link a signer was sent is the one that is stored, or the stored one is on its way;
* `newest_link_dead` — a resend that could not be queued, and a reminder that could not be mailed.
-/

namespace ESignSoft.Envelope

open ESignSoft.Lib.JsText ESignSoft.Lib.Table ESignSoft.Lib.Interleaving
open ESignSoft.Contracts ESignSoft.Signing

/-! ## What goes out -/

/-- What a process hands to the queue or to the mail server. -/
inductive Email
  | job (job : Job)
  | mail (mail : Mail)

/-- The signing link in a job: the address it goes to and the token it ends in. -/
def Job.link (job : Job) : Option (JsString × Nat) :=
  match job.payload with
  | .invite invite | .inviteEmail invite => some (invite.to_, invite.token)
  | .complete | .voidedEmail .. => none

def Mail.link : Mail → Option (JsString × Nat)
  | .reminder to_ _ _ token _ => some (to_, token)
  | .expired .. => none

def Email.link : Email → Option (JsString × Nat)
  | .job j => j.link
  | .mail m => m.link

def World.handOver (w : World) : Email → World
  | .job job => w.enqueue job
  | .mail mail => w.mail mail

/-- A job whose id the queue already holds is dropped. -/
def World.takes (w : World) : Email → Bool
  | .job job => !(w.queue.present.any fun j => j.id == job.id)
  | .mail _ => true

/-- The links that went out between two states, newest first. -/
def linksSince (w w' : World) : List (JsString × Nat) :=
  (w'.mailed.take (w'.mailed.length - w.mailed.length)).filterMap Mail.link ++
    (w'.queue.accepted.take (w'.queue.accepted.length - w.queue.accepted.length)).filterMap Job.link

theorem linksSince_same {w w' : World} (hmailed : w'.mailed = w.mailed)
    (haccepted : w'.queue.accepted = w.queue.accepted) : linksSince w w' = [] := by
  simp [linksSince, hmailed, haccepted]

/-- What is handed over goes out, unless it is dropped. -/
theorem linksSince_handOver (w : World) (e : Email) :
    linksSince w (w.handOver e) = if w.takes e then e.link.toList else [] := by
  cases e with
  | mail mail =>
      simp only [World.takes, if_true, Email.link]
      cases hlink : mail.link <;> simp [linksSince, World.handOver, World.mail, hlink]
  | job job =>
      by_cases hpresent : (w.queue.present.any fun j => j.id == job.id) = true
      · have hsame : w.queue.add job = w.queue := Queue.add_of_present hpresent
        simp [linksSince, World.handOver, World.enqueue, World.takes, hsame, hpresent]
      · have hadd : (w.queue.add job).accepted = job :: w.queue.accepted := by
          simp only [Queue.add, hpresent, Bool.false_eq_true, if_false]
        simp only [World.takes, hpresent, Bool.not_false, if_true, Email.link]
        cases hlink : job.link <;> simp [linksSince, World.handOver, World.enqueue, hadd, hlink]

/-! ## What a process has still to hand over -/

def Proc.outbox : Proc → List Email
  | .sending jobs | .notifying jobs => jobs.map .job
  | .inviting documentName invites => invites.map fun i => .job (i.1.job documentName)
  | .completing => [.job ⟨.complete, .complete⟩]
  | .expiredMailing mail | .reminderMailing mail _ _ => [.mail mail]
  | _ => []

def Proc.links (l : Proc) : List (JsString × Nat) := l.outbox.filterMap Email.link

/-- The process is about to take back the whole send. -/
def Proc.rollsBack : Proc → Bool
  | .writing .deleted _ => true
  | _ => false

/-- The email that goes out in a step. -/
def Proc.handsOver (w : World) (l : Proc) : Choice → Option Email
  | .next | .fail true => l.outbox.head?.filter w.takes
  | _ => none

/-- The emails that are lost in a step: the queue drops or refuses one, or the process dies with all it
has.  A send that fails is taken back as a whole. -/
def Proc.givesUp (w : World) (l : Proc) (c : Choice) : List Email :=
  match l, c with
  | .sending _, .fail _ => []
  | l, .next | l, .fail true => (l.outbox.head?.filter fun e => !w.takes e).toList
  | l, .fail false => l.outbox.take 1
  | l, .crash => l.outbox
  | _, .call _ => []

/-- How a step of a process that commits nothing deals with its outbox: it takes the send back, or every
email it had is kept, goes out or is lost. -/
def Posts (w : World) (l : Proc) (c : Choice) (w' : World) (l' : Proc) : Prop :=
  l'.rollsBack = true ∨
  (linksSince w w' = ((l.handsOver w c).bind Email.link).toList ∧
    ∀ e ∈ l.outbox, e ∈ l'.outbox ∨ l.handsOver w c = some e ∨ e ∈ l.givesUp w c)

/-- Handing over the first email. -/
theorem Posts.of_handOver {w : World} {l l' : Proc} {e : Email} {c : Choice} (hc : c = .next ∨ c = .fail true)
    (hl : l.outbox = e :: l'.outbox) (hsending : c = .fail true → ∀ jobs, l ≠ .sending jobs) :
    Posts w l c (w.handOver e) l' := by
  have hhands : l.handsOver w c = if w.takes e then some e else none := by
    rcases hc with rfl | rfl <;> simp [Proc.handsOver, hl, Option.filter]
  have hgives : w.takes e = false → e ∈ l.givesUp w c := by
    intro hdropped
    rcases hc with rfl | rfl
    · unfold Proc.givesUp
      split <;> simp_all
    · unfold Proc.givesUp
      split <;> simp_all
  refine Or.inr ⟨?_, fun e' he' => ?_⟩
  · rw [linksSince_handOver, hhands]
    cases w.takes e <;> rfl
  · rw [hl] at he'
    rcases List.mem_cons.mp he' with rfl | hrest
    · cases htakes : w.takes e' with
      | true => exact Or.inr (Or.inl (by rw [hhands, htakes]; rfl))
      | false => exact Or.inr (Or.inr (hgives htakes))
    · exact Or.inl hrest

/-- A step that lets nothing out and keeps or loses what the process has. -/
theorem Posts.of_quiet {w w' : World} {l l' : Proc} {c : Choice} (hmailed : w'.mailed = w.mailed)
    (haccepted : w'.queue.accepted = w.queue.accepted) (hhands : l.handsOver w c = none)
    (hleft : ∀ e ∈ l.outbox, e ∈ l'.outbox ∨ e ∈ l.givesUp w c) : Posts w l c w' l' := by
  refine Or.inr ⟨?_, fun e he => ?_⟩
  · rw [linksSince_same hmailed haccepted, hhands]
    rfl
  · rcases hleft e he with h | h
    · exact Or.inl h
    · exact Or.inr (Or.inr h)

/-- A process with emails to hand over hands over the first. -/
theorem next_handOver {cfg : Config} {w w' : World} {l l' : Proc} {e : Email} {rest : List Email}
    (h : next cfg w l = some (w', l')) (hl : l.outbox = e :: rest) :
    w' = w.handOver e ∧ l'.outbox = rest := by
  cases l with
  | sending jobs =>
      cases jobs with
      | nil => cases hl
      | cons job jobs =>
          obtain ⟨rfl, rfl⟩ := List.cons.inj hl
          obtain ⟨rfl, rfl⟩ := Prod.mk.inj (Option.some.inj h)
          exact ⟨rfl, rfl⟩
  | notifying jobs =>
      cases jobs with
      | nil => cases hl
      | cons job jobs =>
          obtain ⟨rfl, rfl⟩ := List.cons.inj hl
          obtain ⟨rfl, rfl⟩ := Prod.mk.inj (Option.some.inj h)
          exact ⟨rfl, rfl⟩
  | inviting documentName invites =>
      cases invites with
      | nil => cases hl
      | cons invite invites =>
          obtain ⟨rfl, rfl⟩ := List.cons.inj hl
          obtain ⟨rfl, rfl⟩ := Prod.mk.inj (Option.some.inj h)
          exact ⟨rfl, rfl⟩
  | completing | expiredMailing mail | reminderMailing mail due total =>
      obtain ⟨rfl, rfl⟩ := List.cons.inj hl
      obtain ⟨rfl, rfl⟩ := Prod.mk.inj (Option.some.inj h)
      exact ⟨rfl, rfl⟩
  | _ => cases hl

/-- Everybody else lets nothing out. -/
theorem Next.lets_nothing_out {cfg : Config} {w w' : World} {l l' : Proc} (h : Next cfg w l w' l')
    (hl : l.outbox = []) : w'.mailed = w.mailed ∧ w'.queue = w.queue := by
  cases h with
  | invite documentName invite rest => cases hl
  | enqueueCompletion => cases hl
  | enqueueFirst job rest => cases hl
  | notify job rest => cases hl
  | mailExpired mail => cases hl
  | mailReminder mail rest total => cases hl
  | _ => exact ⟨rfl, rfl⟩

theorem failEnqueue_posts {taken : Bool} {w w' : World} {l l' : Proc}
    (h : failEnqueue taken w l = some (w', l')) : Posts w l (.fail taken) w' l' := by
  -- The queue has the job all the same, or it is lost.
  have hjob : ∀ job, l.outbox = .job job :: l'.outbox → (∀ jobs, l ≠ .sending jobs) →
      w' = (if taken then w.enqueue job else w) → Posts w l (.fail taken) w' l' := by
    intro job hl hsending hw
    cases taken with
    | true =>
        rw [if_pos rfl] at hw
        rw [hw]
        exact Posts.of_handOver (Or.inr rfl) hl fun _ => hsending
    | false =>
        rw [if_neg (by simp)] at hw
        rw [hw]
        refine Posts.of_quiet rfl rfl rfl fun e he => ?_
        rw [hl] at he
        rcases List.mem_cons.mp he with rfl | hrest
        · right
          unfold Proc.givesUp
          split <;> simp_all
        · exact Or.inl hrest
  unfold failEnqueue at h
  split at h
  · rename_i documentName invite rest
    obtain ⟨hw, rfl⟩ := Prod.mk.inj (Option.some.inj h)
    exact hjob _ rfl (by simp) hw.symm
  · obtain ⟨hw, rfl⟩ := Prod.mk.inj (Option.some.inj h)
    exact hjob _ rfl (by simp) hw.symm
  · rename_i job rest
    obtain ⟨hw, rfl⟩ := Prod.mk.inj (Option.some.inj h)
    exact hjob job rfl (by simp) hw.symm
  · obtain ⟨-, rfl⟩ := Prod.mk.inj (Option.some.inj h)
    exact Or.inl rfl
  · cases h

/-- Every step of a process deals with its outbox. -/
theorem act_posts {cfg : Config} {p : Nat} {c : Choice} {w w' : World} {l l' : Proc}
    (h : act cfg p c w l = some (w', l')) : Posts w l c w' l' := by
  rcases act_cases h with ⟨call, rfl, hrest, rfl, rfl⟩ | ⟨rfl, hnext⟩ | ⟨taken, rfl, hfail⟩ |
    ⟨rfl, -, rfl, rfl⟩
  · refine Posts.of_quiet rfl rfl rfl fun e he => ?_
    cases l with
    | idle => cases he
    | done a => cases he
    | _ => cases hrest
  · cases hl : l.outbox with
    | nil =>
        obtain ⟨hmailed, hqueue⟩ := hnext.lets_nothing_out hl
        refine Posts.of_quiet hmailed (by rw [hqueue]) ?_ fun e he => ?_
        · simp [Proc.handsOver, hl]
        · rw [hl] at he
          cases he
    | cons e rest =>
        obtain ⟨rfl, hrest⟩ := next_handOver h hl
        exact Posts.of_handOver (Or.inl rfl) (by rw [hl, hrest]) fun hc => by cases hc
  · exact failEnqueue_posts hfail
  · refine Posts.of_quiet rfl rfl rfl fun e he => Or.inr ?_
    unfold Proc.givesUp
    split <;> simp_all

/-! ## Which link is out -/

/-- It is this signer's turn: the envelope is open and so is their own row. -/
structure Db.Awaits (db : Db) (r : Recipient) : Prop where
  live : ∃ row, db.request = some row ∧ row.open_ = true
  mem : r ∈ db.recipients
  signer : r.role = .signer
  open_ : r.open_ = true

/-- The last link that went out to this address. -/
def lastLink (sent : List (JsString × Nat)) (email : JsString) : Option Nat :=
  (sent.find? fun x => x.1 == email).map Prod.snd

/-- A process is about to hand the link over, or to take the whole send back. -/
def OnItsWay (s : System World Proc) (x : JsString × Nat) : Prop :=
  ∃ p, x ∈ (s.procs p).links ∨ (s.procs p).rollsBack = true

/-- Every signer whose turn it is has a link, and the last one that went out to them is that link, or it
is on its way. -/
def NewestWorks (sent : List (JsString × Nat)) (s : System World Proc) : Prop :=
  ∀ r, s.shared.db.Awaits r → ∃ t, r.signingTokenHash = some (.sha256 t) ∧
    (lastLink sent r.email = some t ∨ OnItsWay s (r.email, t))

/-- The link is the one stored for a signer whose turn it is. -/
def Current (db : Db) (x : JsString × Nat) : Prop :=
  ∃ r, db.Awaits r ∧ r.email = x.1 ∧ r.signingTokenHash = some (.sha256 x.2)

/-- The step loses no current link, cuts no roll-back short and lets no outdated link go out to a signer
after the current one. -/
def SendsInOrder (s : System World Proc) (l : Label Choice Event) : Prop :=
  match l with
  | .env _ => True
  | .proc p c =>
      (∀ e ∈ (s.procs p).givesUp s.shared c, ∀ x, e.link = some x → ¬ Current s.shared.db x) ∧
      (∀ e, (s.procs p).handsOver s.shared c = some e → ∀ email t, e.link = some (email, t) →
        ∀ r, s.shared.db.Awaits r → r.email = email → r.signingTokenHash ≠ some (.sha256 t) →
          ∃ t', r.signingTokenHash = some (.sha256 t') ∧ OnItsWay s (email, t')) ∧
      (c = .crash → (s.procs p).rollsBack = false)

/-! ## Every new link goes out after its commit -/

/-- The links a process lets out once it has committed. -/
def Kont.links : Kont → List (JsString × Nat)
  | .notify jobs => jobs.filterMap Job.link
  | .handedOff _ invites => invites.map fun i => (i.email, i.token)
  | .reminded mail _ _ => mail.link.toList
  | _ => []

/-- Every link the transaction stores goes out afterwards, to the address in its row. -/
structure MailsLinks (db : Db) (write : Write) (k : Kont) : Prop where
  mailed : ∀ id t, (id, t) ∈ write.links → ∀ r ∈ db.recipients, r.id = id → (r.email, t) ∈ k.links
  reminded : ∀ mail rest total, k = .reminded mail rest total →
    ∃ id t reminderCount now, write = .reminded id t reminderCount now

def Proc.MailsLinks (db : Db) : Proc → Prop
  | .writing write k => Envelope.MailsLinks db write k
  | .reminderRequestReading rc _ _ => ∀ r ∈ db.recipients, r.id = rc.id → r.email = rc.email
  | _ => True

/-- A transaction without links of its own has none to let out. -/
theorem MailsLinks.of_links_nil {db : Db} {write : Write} {k : Kont} (hlinks : write.links = [])
    (hk : ∀ mail rest total, k ≠ .reminded mail rest total) : MailsLinks db write k where
  mailed id t hlink := by
    rw [hlinks] at hlink
    cases hlink
  reminded mail rest total h := absurd h (hk mail rest total)

/-- Ids and addresses never change. -/
theorem Proc.MailsLinks.write {db : Db} {l : Proc} (h : l.MailsLinks db) (w : Write) :
    l.MailsLinks (db.write w) := by
  cases l with
  | writing write k =>
      refine ⟨fun id t hlink r' hr' hid => ?_, h.reminded⟩
      obtain ⟨r, hr, rfl⟩ := exists_of_mem_write hr'
      rw [onRecipient_email]
      exact h.mailed id t hlink r hr (by rw [← hid, onRecipient_id])
  | reminderRequestReading rc rest total =>
      intro r' hr' hid
      obtain ⟨r, hr, rfl⟩ := exists_of_mem_write hr'
      rw [onRecipient_email]
      exact h r hr (by rw [← hid, onRecipient_id])
  | _ => trivial

theorem mailsLinks_after (db : Db) (k : Kont) (w : Write) (db' : Db) : (k.after w db).MailsLinks db' := by
  have hfollows := k.follows_after w db
  generalize k.after w db = l at hfollows ⊢
  cases hfollows <;> trivial

/-- What a hand-off stores and whom it invites come from the same members of the group. -/
theorem mailsLinks_handOff {db : Db} (hids : (db.recipients.map Recipient.id).Nodup) {group : List Recipient}
    (hgroup : advanceEnvelope db = .handOff group) (minted : Nat) (documentName : JsString) (now : Int) :
    MailsLinks db (.handedOff (handOffs (mintGroup group minted)) now)
      (.handedOff documentName (handOffInvites (mintGroup group minted))) where
  mailed id t hlink r hr hid := by
    obtain ⟨q, hq, rfl⟩ := mem_handOffs_signer.mp (mem_links_handedOff.mp hlink)
    have hqmem : q ∈ db.recipients := mem_of_handOff hgroup (mintGroup_spec hq).1
    rw [eq_of_key_eq hids hr hqmem hid]
    exact List.mem_map.mpr ⟨_, mem_handOffInvites.mpr ⟨q, t, hq, rfl⟩, rfl⟩
  reminded mail rest total h := by cases h

theorem next_mailsLinks {cfg : Config} {w w' : World} {l l' : Proc}
    (hids : (w.db.recipients.map Recipient.id).Nodup) (hown : l.MailsLinks w.db)
    (h : next cfg w l = some (w', l')) : l'.MailsLinks w'.db := by
  cases next_spec h with
  | viewing token ip ua req hviewed => exact .of_links_nil (by simp) (by simp)
  | consenting token req hconsent => exact .of_links_nil (by simp) (by simp)
  | claiming token dto ip ua req data hdata => exact .of_links_nil (by simp) (by simp)
  | commit write k => exact mailsLinks_after w.db k write _
  | complete documentName now hcomplete => exact .of_links_nil rfl (by simp)
  | handOff documentName now group hgroup => exact mailsLinks_handOff hids hgroup _ _ _
  | voidUpdate people documentName reason now jobs => exact .of_links_nil rfl (by simp)
  | expireUpdate row unsigned mail => exact .of_links_nil rfl (by simp)
  | resend id row rc job hrc hrole hcompleted hpending =>
      rcases next_notify h with ⟨_, _, _, _, hl, -⟩ | ⟨id', row', rc', hl, hrc', -, hwrite, hjobs⟩
      · cases hl
      · obtain ⟨rfl, rfl⟩ := Proc.resendRecipientReading.inj hl
        refine ⟨fun id' t hlink r hr hid => ?_, by simp⟩
        obtain ⟨rfl, rfl⟩ := Prod.mk.inj (List.mem_singleton.mp hlink)
        obtain ⟨hmem, hid'⟩ := Db.findRecipient_mem hrc'
        rw [hjobs, eq_of_key_eq hids hr hmem (hid.trans hid'.symm)]
        exact List.mem_singleton.mpr rfl
  | remind rc rest total mail hcompleted =>
      obtain ⟨rc', row, hl, -, -, hmail⟩ := next_reminded h
      obtain ⟨rfl, -, -⟩ := Proc.reminderRequestReading.inj hl
      refine ⟨fun id' t hlink r hr hid => ?_, fun _ _ _ _ => ⟨_, _, _, _, rfl⟩⟩
      obtain ⟨rfl, rfl⟩ := Prod.mk.inj (List.mem_singleton.mp hlink)
      -- The address is the one the sweep has read.
      have hemail : r.email = rc.email := hown r hr hid
      rw [hmail, hemail]
      exact List.mem_singleton.mpr rfl
  | remindNext id rest total rc hrc =>
      intro r hr hid
      rw [eq_of_key_eq hids hr (Db.findRecipient_mem hrc).1 hid]
  | _ => trivial

theorem act_mailsLinks {cfg : Config} {p : Nat} {c : Choice} {w w' : World} {l l' : Proc}
    (hids : (w.db.recipients.map Recipient.id).Nodup) (hown : l.MailsLinks w.db)
    (h : act cfg p c w l = some (w', l')) : l'.MailsLinks w'.db := by
  rcases act_cases h with ⟨call, -, -, rfl, rfl⟩ | ⟨rfl, -⟩ | ⟨taken, -, hfail⟩ | ⟨-, -, rfl, rfl⟩
  · cases call <;> trivial
  · exact next_mailsLinks hids hown h
  · obtain ⟨-, hcases⟩ := failEnqueue_spec hfail
    rcases hcases with ⟨_, _, _, -, rfl⟩ | ⟨-, rfl⟩ | ⟨_, _, -, rfl⟩ | ⟨_, _, _, -, rfl⟩
    · trivial
    · trivial
    · trivial
    · exact .of_links_nil rfl (by simp)
  · trivial

theorem mailsOutline (cfg : Config) (ok : System World Proc → Label Choice Event → Prop) :
    ProofOutline (service cfg) ok (fun w : World => (w.db.recipients.map Recipient.id).Nodup)
      (fun w _ l => l.MailsLinks w.db) (fun _ _ => True) where
  act := by
    intro s p c sh l hs _ hact
    have hown := act_mailsLinks (p := p) hs.shared (hs.proc p) hact
    rcases act_spec (p := p) hact with ⟨write, k, -, -, rfl, -⟩ | hready
    · exact ⟨write_ids hs.shared, hown, fun q _ => (hs.proc q).write write, fun _ _ => ⟨trivial, trivial⟩⟩
    · refine ⟨?_, hown, fun q _ => ?_, fun _ _ => ⟨trivial, trivial⟩⟩
      · rw [hready.same.db]
        exact hs.shared
      · rw [hready.same.db]
        exact hs.proc q
  env := by
    intro s e sh hs _ henv
    rw [(env_spec henv).db]
    exact ⟨hs.shared, hs.proc⟩

/-- What is stored by a commit is on its way after it. -/
theorem mem_links_after {db : Db} {write : Write} {k : Kont} (hids : (db.recipients.map Recipient.id).Nodup)
    (h : MailsLinks db write k) {r : Recipient} (hr : r ∈ db.recipients) {t : Nat}
    (hlink : (r.id, t) ∈ write.links)
    (hcount : ∀ id t reminderCount now, write = .reminded id t reminderCount now →
      r.reminderCount = reminderCount) : (r.email, t) ∈ (k.after write db).links := by
  have hmem := h.mailed _ _ hlink r hr rfl
  cases k with
  | notify jobs =>
      show (r.email, t) ∈ (jobs.map Email.job).filterMap Email.link
      rw [List.filterMap_map]
      exact hmem
  | handedOff documentName invites =>
      obtain ⟨invite, hinvite, heq⟩ := List.mem_map.mp hmem
      refine List.mem_filterMap.mpr ⟨.job (invite.job documentName), ?_, ?_⟩
      · show _ ∈ (invites.map fun i => (i, storesInvite db i)).map fun i => Email.job (i.1.job documentName)
        rw [List.map_map]
        exact List.mem_map.mpr ⟨invite, hinvite, rfl⟩
      · rw [← heq]
        rfl
  | reminded mail rest total =>
      obtain ⟨id, t', reminderCount, now, rfl⟩ := h.reminded mail rest total rfl
      obtain ⟨rfl, rfl⟩ := Prod.mk.inj (List.mem_singleton.mp hlink)
      have hone : Write.count (.reminded r.id t reminderCount now) db = 1 := by
        have hle := matchCount_key_le_one hids r.id fun q => q.reminderCount == reminderCount
        have hpos : 0 < matchCount (fun q : Recipient => q.id == r.id && q.reminderCount == reminderCount)
            db.recipients := matchCount_pos_of_mem hr (by simp [hcount _ _ _ _ rfl])
        simp only [Write.count]
        simp only [← beq_eq_decide] at hle
        omega
      simp only [Kont.after, hone, if_true]
      exact List.mem_filterMap.mpr ⟨.mail mail, List.mem_singleton.mpr rfl, Option.mem_toList.mp hmem⟩
  | _ => cases hmem

/-! ## Every run -/

@[simp] theorem lastLink_cons_self (sent : List (JsString × Nat)) (email : JsString) (t : Nat) :
    lastLink ((email, t) :: sent) email = some t := by
  simp [lastLink]

theorem lastLink_cons_ne {email email' : JsString} (h : email' ≠ email) (t : Nat)
    (sent : List (JsString × Nat)) : lastLink ((email', t) :: sent) email = lastLink sent email := by
  simp [lastLink, h]

/-- What is on its way through other processes stays so. -/
theorem OnItsWay.move {s : System World Proc} {x : JsString × Nat} (h : OnItsWay s x) {p : Nat} (sh : World)
    {l' : Proc} (hown : x ∈ (s.procs p).links ∨ (s.procs p).rollsBack = true →
      x ∈ l'.links ∨ l'.rollsBack = true) : OnItsWay ⟨sh, Function.update s.procs p l'⟩ x := by
  obtain ⟨q, hq⟩ := h
  by_cases hqp : q = p
  · subst hqp
    exact ⟨q, by simpa using hown hq⟩
  · exact ⟨q, by simpa [hqp] using hq⟩

/-- Whose turn it is after a commit: somebody whose turn it was, with the same link, or somebody with one
of the links the transaction stores. -/
theorem awaits_commit {db : Db} {write : Write} (hroles : WriteRoles db write) {r' : Recipient}
    (h : (db.write write).Awaits r') :
    ∃ r ∈ db.recipients, r.email = r'.email ∧
      ((db.Awaits r ∧ r'.signingTokenHash = r.signingTokenHash) ∨
      ∃ t, (r.id, t) ∈ write.links ∧ r'.signingTokenHash = some (.sha256 t) ∧
        ∀ id t reminderCount now, write = .reminded id t reminderCount now →
          r.reminderCount = reminderCount) := by
  obtain ⟨⟨row', hrow', hopen'⟩, hr', hsigner, hopen⟩ := h
  obtain ⟨row, hrow, rfl⟩ := exists_of_write_request hrow'
  have hlive : ∃ row, db.request = some row ∧ row.open_ = true := ⟨row, hrow, open_of_onRequest hopen'⟩
  obtain ⟨r, hr, rfl⟩ := exists_of_mem_write hr'
  rw [onRecipient_role] at hsigner
  refine ⟨r, hr, (onRecipient_email write r).symm, ?_⟩
  have hspec := onRecipient_spec write r
  generalize write.onRecipient r = r' at hopen hspec ⊢
  cases hspec with
  | same => exact Or.inl ⟨⟨hlive, hr, hsigner, hopen⟩, rfl⟩
  | viewed now ip ua hw hsent =>
      exact Or.inl ⟨⟨hlive, hr, hsigner, Recipient.open_iff.mpr (Or.inl hsent)⟩, rfl⟩
  | consented now hw hopenr hnone => exact Or.inl ⟨⟨hlive, hr, hsigner, hopenr⟩, rfl⟩
  | claimed hash data hw hhash hopenr => simp [Recipient.open_] at hopen
  | activated group now hw hcc =>
      have hrole := hroles.activates r.id (by rw [hw]; exact mem_activates_handedOff.mpr hcc) r hr rfl
      rw [hsigner] at hrole
      cases hrole
  | invited group now token hw hhandOff hpending =>
      refine Or.inr ⟨token, ?_, rfl, fun _ _ _ _ h => ?_⟩
      · rw [hw]
        exact mem_links_handedOff.mpr hhandOff
      · rw [hw] at h
        cases h
  | cleared hw hleft =>
      rw [onRequest_of_clearing hw] at hopen'
      cases hopen'
  | resent token now hw =>
      refine Or.inr ⟨token, ?_, rfl, fun _ _ _ _ h => ?_⟩
      · rw [hw]
        exact List.mem_singleton.mpr rfl
      · rw [hw] at h
        cases h
  | reminded token now hw =>
      refine Or.inr ⟨token, ?_, rfl, fun _ _ _ _ h => ?_⟩
      · rw [hw]
        exact List.mem_singleton.mpr rfl
      · rw [hw] at h
        cases h
        rfl

/-- A commit leaves every link it stores on its way. -/
theorem NewestWorks.commit {sent : List (JsString × Nat)} {s : System World Proc} (h : NewestWorks sent s)
    {p : Nat} {write : Write} {k : Kont} (hl : s.procs p = .writing write k)
    (hids : (s.shared.db.recipients.map Recipient.id).Nodup) (hroles : WriteRoles s.shared.db write)
    (hmails : MailsLinks s.shared.db write k) :
    NewestWorks sent ⟨s.shared.commit write k, Function.update s.procs p (k.after write s.shared.db)⟩ := by
  intro r' hr'
  obtain ⟨r, hr, hemail, ⟨hawaits, hsame⟩ | ⟨t, hlink, hhash, hcount⟩⟩ := awaits_commit hroles hr'
  · obtain ⟨t, hhash, hout⟩ := h r hawaits
    refine ⟨t, hsame.trans hhash, ?_⟩
    rw [← hemail]
    rcases hout with hlast | hway
    · exact Or.inl hlast
    · refine Or.inr (hway.move _ fun hown => ?_)
      rw [hl] at hown
      rcases hown with hlinks | hrolls
      · cases hlinks
      · -- No row is left of a send that is taken back.
        cases write with
        | deleted => cases hr'.mem
        | _ => cases hrolls
  · refine ⟨t, hhash, Or.inr ⟨p, Or.inl ?_⟩⟩
    rw [← hemail]
    simpa using mem_links_after hids hmails hr hlink hcount

/-- The current link of a signer that is on its way stays so or goes out, unless it is lost. -/
theorem OnItsWay.posts {sent : List (JsString × Nat)} {s : System World Proc} {x : JsString × Nat}
    (h : OnItsWay s x) {p : Nat} {c : Choice} {sh : World} {l' : Proc} (hok : SendsInOrder s (.proc p c))
    (hcurrent : Current s.shared.db x)
    (hsent : linksSince s.shared sh = (((s.procs p).handsOver s.shared c).bind Email.link).toList)
    (hleft : ∀ e ∈ (s.procs p).outbox, e ∈ l'.outbox ∨ (s.procs p).handsOver s.shared c = some e ∨
      e ∈ (s.procs p).givesUp s.shared c) (hrolls : (s.procs p).rollsBack = true → c = .crash) :
    lastLink (linksSince s.shared sh ++ sent) x.1 = some x.2 ∨
      OnItsWay ⟨sh, Function.update s.procs p l'⟩ x := by
  obtain ⟨hlost, -, hcrash⟩ := hok
  by_cases hmine : x ∈ (s.procs p).links
  · obtain ⟨e, he, hlink⟩ := List.mem_filterMap.mp hmine
    rcases hleft e he with hkept | hhands | hgone
    · have hstill : x ∈ l'.links := List.mem_filterMap.mpr ⟨e, hkept, hlink⟩
      exact Or.inr ⟨p, Or.inl (by simpa using hstill)⟩
    · left
      rw [hsent, hhands, Option.bind_some, hlink]
      exact lastLink_cons_self sent x.1 x.2
    · exact absurd hcurrent (hlost e hgone x hlink)
  · refine Or.inr (h.move sh fun hown => ?_)
    rcases hown with hlinks | hrollsBack
    · exact absurd hlinks hmine
    · rw [hcrash (hrolls hrollsBack)] at hrollsBack
      cases hrollsBack

/-- Every other step of a process that keeps the order. -/
theorem NewestWorks.posts {sent : List (JsString × Nat)} {s : System World Proc} (h : NewestWorks sent s)
    {p : Nat} {c : Choice} {sh : World} {l' : Proc} (hok : SendsInOrder s (.proc p c))
    (hdb : sh.db = s.shared.db) (hposts : Posts s.shared (s.procs p) c sh l')
    (hrolls : (s.procs p).rollsBack = true → c = .crash) :
    NewestWorks (linksSince s.shared sh ++ sent) ⟨sh, Function.update s.procs p l'⟩ := by
  intro r hr
  have hawaits : s.shared.db.Awaits r := hdb ▸ hr
  obtain ⟨t, hhash, hout⟩ := h r hawaits
  refine ⟨t, hhash, ?_⟩
  rcases hposts with hback | ⟨hsent, hleft⟩
  · exact Or.inr ⟨p, Or.inr (by simpa using hback)⟩
  · have hway : OnItsWay s (r.email, t) → lastLink (linksSince s.shared sh ++ sent) r.email = some t ∨
        OnItsWay ⟨sh, Function.update s.procs p l'⟩ (r.email, t) := fun hway =>
      hway.posts hok ⟨r, hawaits, rfl, hhash⟩ hsent hleft hrolls
    rcases hout with hlast | hout
    · cases hnew : ((s.procs p).handsOver s.shared c).bind Email.link with
      | none =>
          left
          rw [hsent, hnew]
          exact hlast
      | some x =>
          obtain ⟨email, t₂⟩ := x
          obtain ⟨e, hhands, hlink⟩ := Option.bind_eq_some_iff.mp hnew
          by_cases hemail : email = r.email
          · subst hemail
            by_cases hcurrent : r.signingTokenHash = some (.sha256 t₂)
            · left
              rw [hhash] at hcurrent
              obtain rfl := TokenHash.sha256.inj (Option.some.inj hcurrent)
              rw [hsent, hnew]
              exact lastLink_cons_self sent r.email t
            · -- An outdated link, with the current one still to come.
              obtain ⟨t', hhash', hcoming⟩ := hok.2.1 e hhands _ _ hlink r hawaits rfl hcurrent
              rw [hhash] at hhash'
              obtain rfl := TokenHash.sha256.inj (Option.some.inj hhash')
              exact hway hcoming
          · left
            rw [hsent, hnew]
            exact (lastLink_cons_ne hemail t₂ sent).trans hlast
    · exact hway hout

/-- The roles, what every process goes on to send and the newest link, all together. -/
structure Newest (sent : List (JsString × Nat)) (s : System World Proc) : Prop where
  roles : Holds (fun w : World => Roles w.db) (fun w _ l => ProcRoles w l) (fun _ _ => True) s
  mails : Holds (fun w : World => (w.db.recipients.map Recipient.id).Nodup)
    (fun w _ l => l.MailsLinks w.db) (fun _ _ => True) s
  works : NewestWorks sent s

/-- The links a step of the services lets out. -/
def letsOut (s s' : System World Proc) : List (JsString × Nat) := linksSince s.shared s'.shared

theorem newest_step {cfg : Config} {sent : List (JsString × Nat)} {s s' : System World Proc}
    {l : Label Choice Event} (h : Newest sent s) (hok : SendsInOrder s l) (hstep : (service cfg).step s l = some s') :
    Newest (letsOut s s' ++ sent) s' := by
  refine ⟨(rolesOutline cfg fun _ _ => True).holds_step s l s' h.roles trivial hstep,
    (mailsOutline cfg fun _ _ => True).holds_step s l s' h.mails trivial hstep, ?_⟩
  cases l with
  | env e =>
      obtain ⟨sh, henv, rfl⟩ := Program.step_env hstep
      have hout : linksSince s.shared sh = [] := by
        cases e <;> obtain rfl := Option.some.inj henv <;> exact linksSince_same rfl rfl
      unfold letsOut
      rw [hout]
      intro r hr
      exact h.works r ((env_spec henv).db ▸ hr)
  | proc p c =>
      obtain ⟨sh, l', hact, rfl⟩ := Program.step_proc hstep
      by_cases hcommits : ∃ write k, s.procs p = .writing write k ∧ c = .next
      · obtain ⟨write, k, hl, rfl⟩ := hcommits
        rw [hl] at hact
        obtain ⟨rfl, rfl⟩ := Prod.mk.inj (Option.some.inj hact)
        have hmails := h.mails.proc p
        rw [hl] at hmails
        have hout : linksSince s.shared (s.shared.commit write k) = [] := linksSince_same rfl rfl
        unfold letsOut
        rw [hout]
        exact h.works.commit hl h.mails.shared ((h.roles.proc p).pending write k (by rw [hl]; rfl)) hmails
      · have hdb : sh.db = s.shared.db := by
          rcases act_spec (p := p) hact with ⟨write, k, hl, hc, -, -⟩ | hready
          · exact absurd ⟨write, k, hl, hc⟩ hcommits
          · exact hready.same.db
        refine h.works.posts hok hdb (act_posts (p := p) hact) fun hrolls => ?_
        generalize hl : s.procs p = l at hact hrolls hcommits
        cases l with
        | writing write k =>
            cases c with
            | next => exact absurd ⟨write, k, rfl, rfl⟩ hcommits
            | crash => rfl
            | call call => cases hact
            | fail taken => cases hact
        | _ => cases hrolls

/-- A send has a link on its way to everybody whose turn it is. -/
theorem newest_start {cfg : Config} {template : Option Template} {input : SendRequest}
    {senderName : Option JsString} {now : Int} {sending : Sending}
    (hinput : SendRequestSchema cfg.platform input = true)
    (hsend : send cfg template input senderName now = .ok sending) : Newest [] (start sending now) where
  roles := rolesHolds_start (send_spec hinput hsend) now
  mails :=
    { shared := (send_spec hinput hsend).ids
      proc := by
        intro p
        simp only [start]
        split <;> trivial
      pair := fun _ _ _ => trivial }
  works := by
    intro r hr
    have hnew := send_spec hinput hsend
    have hinvited : Invited input r := by
      by_contra hnot
      have hpending := (hnew.waiting r hr.mem hnot).1
      have hopen := Recipient.open_iff.mp hr.open_
      rw [hpending] at hopen
      simp at hopen
    obtain ⟨-, t, -, hhash⟩ := hnew.invited r hr.mem hinvited
    refine ⟨t, hhash, Or.inr ⟨0, Or.inl ?_⟩⟩
    show (r.email, t) ∈ (sending.jobs.map Email.job).filterMap Email.link
    rw [List.filterMap_map]
    obtain ⟨template, x, -, hemail, hjob⟩ := mem_jobs_of_minted hsend hr.mem hhash
    rw [← hemail]
    exact List.mem_filterMap.mpr ⟨_, hjob, rfl⟩

/-- **The newest delivered email works**, in every run that loses no current link and lets no outdated one
go out after it: whoever's turn it is, the last link that went out to them is the one that is stored, or
the stored one is on its way. -/
theorem newest_link_works {cfg : Config} {template : Option Template} {input : SendRequest}
    {senderName : Option JsString} {now : Int} {sending : Sending} {sent : List (JsString × Nat)}
    {s : System World Proc} (hinput : SendRequestSchema cfg.platform input = true)
    (hsend : send cfg template input senderName now = .ok sending)
    (hs : Records (service cfg) SendsInOrder letsOut (start sending now) sent s) : NewestWorks sent s :=
  (Records.invariant (I := Newest) (fun _ _ _ _ h hok hstep => newest_step h hok hstep) hs
    (newest_start hinput hsend)).works

/-- A check that a step keeps the order: it loses nothing, and what goes out is what is stored. -/
def keepsOrder (s : System World Proc) (l : Label Choice Event) : Bool :=
  match l with
  | .env _ => true
  | .proc p c =>
      ((s.procs p).givesUp s.shared c).isEmpty &&
      (((s.procs p).handsOver s.shared c).bind Email.link).all (fun x =>
        s.shared.db.recipients.all fun r => r.email != x.1 || r.signingTokenHash == some (.sha256 x.2)) &&
      !(s.procs p).rollsBack

theorem sendsInOrder_of_keepsOrder {s : System World Proc} {l : Label Choice Event}
    (h : keepsOrder s l = true) : SendsInOrder s l := by
  cases l with
  | env e => trivial
  | proc p c =>
      simp only [keepsOrder, Bool.and_eq_true, List.isEmpty_iff, Bool.not_eq_true'] at h
      obtain ⟨⟨hnothing, hstored⟩, hrolls⟩ := h
      refine ⟨fun e he => ?_, fun e he email t hlink r hr hemail hother => ?_, fun _ => hrolls⟩
      · rw [hnothing] at he
        cases he
      · rw [he, Option.bind_some, hlink, Option.all_some, List.all_eq_true] at hstored
        have hr' := hstored r hr.mem
        simp [hemail, hother] at hr'

/-- One signer, invited at once. -/
def exampleSigner : SendRequest := exampleInput .parallel [exampleRecipient "a" .signer 1]

/-- The invitation is queued, and process 2 makes a call some days later. -/
def exampleRotation (days : Int) (c : Call) (steps : Nat) : List (Label Choice Event) :=
  [.proc 0 .next, .proc 0 .next, .env (.clock (days * dayMs))] ++ exampleCall 2 c steps

/-- Replay a schedule right after the example's send, with the links that go out. -/
def recordExample (check : System World Proc → Label Choice Event → Bool)
    (schedule : List (Label Choice Event)) : Option (List (JsString × Nat) × System World Proc) :=
  match send exampleConfig (some exampleTemplate) exampleSigner none 0 with
  | .ok sending => (service exampleConfig).recordIf check letsOut (start sending 0) schedule
  | .error _ => none

/-- A resend that is queued. -/
theorem newest_link_works_resent :
    ∃ sent s, recordExample keepsOrder (exampleRotation 1 (.resend 0) 4) = some (sent, s) ∧
      sent.map Prod.snd = [1, 0] ∧ NewestWorks sent s := by
  have hrun : (recordExample keepsOrder (exampleRotation 1 (.resend 0) 4)).map
      (fun r => r.1.map Prod.snd) = some [1, 0] := by
    decide +kernel
  obtain ⟨⟨sent, s⟩, hs, htokens⟩ := Option.map_eq_some_iff.mp hrun
  refine ⟨sent, s, hs, htokens, ?_⟩
  unfold recordExample at hs
  split at hs
  · rename_i sending hsend
    have hrecords := (Records.of_recordIf hs).mono fun _ _ h => sendsInOrder_of_keepsOrder h
    exact newest_link_works (by decide +kernel) hsend hrecords
  · cases hs

/-- Some signer's turn it is whose last link is not the one that is stored. -/
def holdsDeadLink (sent : List (JsString × Nat)) (db : Db) : Bool :=
  db.request.any SignatureRequest.open_ && db.recipients.any fun r =>
    r.role == .signer && r.open_ && (lastLink sent r.email).map TokenHash.sha256 != r.signingTokenHash

/-- The process has nothing to send. -/
def Proc.silent (l : Proc) : Bool := l.links.isEmpty && !l.rollsBack

theorem not_newestWorks_of_recordExample {check : System World Proc → Label Choice Event → Bool}
    {schedule : List (Label Choice Event)} {sent : List (JsString × Nat)} {s : System World Proc}
    (h : recordExample check schedule = some (sent, s)) (hschedule : schedule.all (Label.below 3) = true)
    (hsilent : ((List.range 3).all fun p => (s.procs p).silent) = true)
    (hdead : holdsDeadLink sent s.shared.db = true) : ¬ NewestWorks sent s := by
  intro hworks
  unfold recordExample at h
  split at h
  · rename_i sending hsend
    have hall : ∀ p, (s.procs p).silent = true := by
      intro p
      by_cases hp : p < 3
      · exact List.all_eq_true.mp hsilent p (List.mem_range.mpr hp)
      · rw [Program.procs_of_runIf hschedule (Nat.le_of_not_lt hp) (Program.runIf_of_recordIf h)]
        have hp0 : p ≠ 0 := by omega
        simp [start, hp0, Proc.silent, Proc.links, Proc.outbox, Proc.rollsBack]
    simp only [holdsDeadLink, Bool.and_eq_true, List.any_eq_true, Option.any_eq_true, beq_iff_eq,
      bne_iff_ne] at hdead
    obtain ⟨hlive, r, hr, ⟨hsigner, hopen⟩, hother⟩ := hdead
    obtain ⟨t, hhash, hlast | ⟨p, hp⟩⟩ := hworks r ⟨hlive, hr, hsigner, hopen⟩
    · rw [hlast, hhash] at hother
      exact hother rfl
    · have hquiet := hall p
      simp only [Proc.silent, Bool.and_eq_true, List.isEmpty_iff, Bool.not_eq_true'] at hquiet
      rcases hp with hlinks | hrolls
      · rw [hquiet.1] at hlinks
        cases hlinks
      · rw [hquiet.2] at hrolls
        cases hrolls
  · cases h

/-- A resend whose enqueue fails is answered all the same, and a sweep dies with its reminder: the signer
has the old link only, which is dead. -/
theorem newest_link_dead :
    SendRequestSchema exampleConfig.platform exampleSigner = true ∧
    (∃ sent s, recordExample (fun _ _ => true)
      (exampleRotation 1 (.resend 0) 3 ++ [.proc 2 (.fail false), .proc 2 .next]) = some (sent, s) ∧
      ¬ NewestWorks sent s) ∧
    ∃ sent s, recordExample (fun _ _ => true)
      (exampleRotation 4 .sweepReminders 4 ++ [.proc 2 .crash]) = some (sent, s) ∧
      ¬ NewestWorks sent s := by
  have hresend : ((recordExample (fun _ _ => true)
      (exampleRotation 1 (.resend 0) 3 ++ [.proc 2 (.fail false), .proc 2 .next])).map fun r =>
        ((List.range 3).all (fun p => (r.2.procs p).silent), holdsDeadLink r.1 r.2.shared.db)) =
      some (true, true) := by
    decide +kernel
  have hremind : ((recordExample (fun _ _ => true)
      (exampleRotation 4 .sweepReminders 4 ++ [.proc 2 .crash])).map fun r =>
        ((List.range 3).all (fun p => (r.2.procs p).silent), holdsDeadLink r.1 r.2.shared.db)) =
      some (true, true) := by
    decide +kernel
  obtain ⟨⟨sent, s⟩, hs, heq⟩ := Option.map_eq_some_iff.mp hresend
  obtain ⟨⟨sent', s'⟩, hs', heq'⟩ := Option.map_eq_some_iff.mp hremind
  simp only [Prod.mk.injEq] at heq heq'
  exact ⟨by decide +kernel,
    ⟨sent, s, hs, not_newestWorks_of_recordExample hs (by decide) heq.1 heq.2⟩,
    ⟨sent', s', hs', not_newestWorks_of_recordExample hs' (by decide) heq'.1 heq'.2⟩⟩

end ESignSoft.Envelope
