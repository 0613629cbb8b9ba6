import ESignSoft.Lib.History
import ESignSoft.Envelope.NewestLink

/-!
# Reminders, capped and spaced

A reminder sweep finds out once who is due and then claims its recipients one by one.  The claim compares
the one column it has just read again, the count: neither the cap, nor the days since the last reminder,
nor whether the envelope is still live is looked at after the listing.  A second sweep with the same list
claims right after the first.

* `due_still_due` — whom the listing finds, it finds for these reasons;
* `reminders_capped_iff` — in every run each reminder that is mailed was claimed by itself, and the claims
  are capped and spaced exactly when each of them still finds its recipient due.
-/

namespace ESignSoft.Envelope

open ESignSoft.Lib.JsText ESignSoft.Lib.Table ESignSoft.Lib.Interleaving
open ESignSoft.Contracts ESignSoft.Signing

/-! ## Reminders on record -/

/-- A claim that goes through: the rows it finds, the time it puts on the reminder, and the mail that is to
follow. -/
structure Reminder where
  request : Option SignatureRequest
  row : Recipient
  now : Int
  mail : Mail

/-- The reminder a process has claimed and has not mailed yet. -/
def Proc.reminder : Proc → Option Mail
  | .reminderMailing mail _ _ => some mail
  | _ => none

/-- What a step has to do with reminders: a claim that matches its row takes one in hand, the mail server
is given it. -/
def reminds (p : Nat) (c : Choice) (w : World) (l : Proc) : List (Errand Reminder Mail) :=
  match c, l with
  | .next, .writing (.reminded id token n now) (.reminded mail _ _) =>
      if (Write.reminded id token n now).count w.db = 1 then
        (w.db.findRecipient id).toList.map fun r => .took p mail ⟨w.db.request, r, now, mail⟩
      else []
  | .next, .reminderMailing mail _ _ => [.gave p mail]
  | _, _ => []

/-- The services, with the reminders on record. -/
def remindingService (cfg : Config) : Program (Logged World (Errand Reminder Mail)) Proc Choice Event :=
  (service cfg).logged reminds

inductive Sweep
  | expiry
  | reminder
  deriving DecidableEq

def Mail.sweep : Mail → Sweep
  | .expired .. => .expiry
  | .reminder .. => .reminder

/-- What a kind of sweep has mailed. -/
def World.mailedBy (w : World) (sweep : Sweep) : List Mail := w.mailed.filter fun m => m.sweep == sweep

/-- How many reminders one recipient was given. -/
def remindersOf (id : Nat) (reminders : List Reminder) : Nat := reminders.countP fun c => c.row.id == id

/-- When one recipient was reminded last. -/
def lastReminded (id : Nat) (reminders : List Reminder) : Option Int :=
  (reminders.find? fun c => c.row.id == id).map Reminder.now

/-- Nobody is reminded more often than `REMINDER_MAX`, nor again before `REMINDER_AFTER_DAYS` have passed
since the last time, nor once they have completed or the envelope is no longer live. -/
structure CappedAndSpaced (cfg : Config) (reminders : List Reminder) : Prop where
  capped : ∀ id, remindersOf id reminders ≤ cfg.reminderMax
  spaced : ∀ c earlier, c :: earlier <:+ reminders → ∀ last, lastReminded c.row.id earlier = some last →
    last + cfg.reminderAfterDays * dayMs ≤ c.now
  live : ∀ c ∈ reminders, c.row.status ≠ .completed ∧
    ∃ row, c.request = some row ∧ row.open_ = true ∧ c.now < row.expiresAt

/-- What `find_recipients_to_remind` asks of a recipient whose link is out, asked of the rows the claim
finds. -/
def Reminder.stillDue (cfg : Config) (c : Reminder) : Bool :=
  c.row.status != .completed && decide (c.row.reminderCount < cfg.reminderMax) &&
    (c.row.lastRemindedAt.all fun last => decide (last ≤ c.now - cfg.reminderAfterDays * dayMs)) &&
    c.request.any fun row => row.open_ && decide (c.now < row.expiresAt)

theorem due_still_due {cfg : Config} {db : Db} {now : Int} {id : Nat}
    (h : id ∈ findRecipientsToRemind cfg db now) (mail : Mail) :
    ∃ r ∈ db.recipients, r.id = id ∧ Reminder.stillDue cfg ⟨db.request, r, now, mail⟩ = true := by
  unfold findRecipientsToRemind at h
  split at h
  · rename_i row hrow
    split at h
    · rename_i hlive
      obtain ⟨r, hr, rfl⟩ := List.mem_map.mp h
      have hdue := (List.mem_insertionSort _).mp (List.mem_of_mem_take hr)
      rw [List.mem_filter] at hdue
      simp only [Bool.and_eq_true, Recipient.open_iff, decide_eq_true_eq] at hdue
      obtain ⟨hmem, ⟨⟨⟨-, hopen⟩, -⟩, hcount⟩, hsince⟩ := hdue
      refine ⟨r, hmem, rfl, ?_⟩
      have hcompleted : r.status ≠ .completed := by
        rcases hopen with hstatus | hstatus <;> simp [hstatus]
      have hrested : (r.lastRemindedAt.all fun last =>
          decide (last ≤ now - cfg.reminderAfterDays * dayMs)) = true := by
        cases hlast : r.lastRemindedAt with
        | none => rfl
        | some last => simpa [Recipient.waitingSince, hlast] using hsince
      have hrequest : (db.request.any fun row => row.open_ && decide (now < row.expiresAt)) = true := by
        rw [hrow]
        exact hlive
      simp only [Reminder.stillDue, hrested, hrequest, Bool.and_true, Bool.and_eq_true, bne_iff_ne, ne_eq,
        decide_eq_true_eq]
      exact ⟨hcompleted, hcount⟩
    · cases h
  · cases h

/-! ## The columns tell how often and when -/

/-- The row's own columns agree with the record. -/
structure Counted (reminders : List Reminder) (r : Recipient) : Prop where
  count : r.reminderCount = remindersOf r.id reminders
  last : r.lastRemindedAt = lastReminded r.id reminders

/-- Every claim found columns that agreed with what had been on record before it. -/
def Faithful : List Reminder → Prop
  | [] => True
  | c :: earlier => Counted earlier c.row ∧ Faithful earlier

theorem remindersOf_cons_self (c : Reminder) (earlier : List Reminder) :
    remindersOf c.row.id (c :: earlier) = remindersOf c.row.id earlier + 1 := by
  simp [remindersOf]

theorem remindersOf_cons_ne {c : Reminder} {id : Nat} (h : id ≠ c.row.id) (earlier : List Reminder) :
    remindersOf id (c :: earlier) = remindersOf id earlier := by
  simp [remindersOf, Ne.symm h]

theorem lastReminded_cons_self (c : Reminder) (earlier : List Reminder) :
    lastReminded c.row.id (c :: earlier) = some c.now := by
  simp [lastReminded]

theorem lastReminded_cons_ne {c : Reminder} {id : Nat} (h : id ≠ c.row.id) (earlier : List Reminder) :
    lastReminded id (c :: earlier) = lastReminded id earlier := by
  simp [lastReminded, Ne.symm h]

theorem Faithful.of_suffix {reminders : List Reminder} (h : Faithful reminders) {c : Reminder}
    {earlier : List Reminder} (hsuffix : c :: earlier <:+ reminders) : Counted earlier c.row := by
  induction reminders with
  | nil => cases List.suffix_nil.mp hsuffix
  | cons d rest ih =>
      rcases List.suffix_cons_iff.mp hsuffix with heq | hrest
      · obtain ⟨rfl, rfl⟩ := List.cons.inj heq
        exact h.1
      · exact ih h.2 hrest

theorem stillDue_iff {cfg : Config} {c : Reminder} :
    c.stillDue cfg = true ↔ (c.row.status ≠ .completed ∧
        ∃ row, c.request = some row ∧ row.open_ = true ∧ c.now < row.expiresAt) ∧
      c.row.reminderCount < cfg.reminderMax ∧
      ∀ last, c.row.lastRemindedAt = some last → last + cfg.reminderAfterDays * dayMs ≤ c.now := by
  have hlast : (c.row.lastRemindedAt.all fun last =>
        decide (last ≤ c.now - cfg.reminderAfterDays * dayMs)) = true ↔
      ∀ last, c.row.lastRemindedAt = some last → last + cfg.reminderAfterDays * dayMs ≤ c.now := by
    cases c.row.lastRemindedAt with
    | none => simp
    | some last =>
        simp only [Option.all_some, decide_eq_true_eq, Option.some.injEq, forall_eq']
        omega
  simp only [Reminder.stillDue, Bool.and_eq_true, hlast, bne_iff_ne, ne_eq, decide_eq_true_eq,
    Option.any_eq_true]
  tauto

/-- Claims with faithful columns are capped and spaced exactly when each finds its recipient due. -/
theorem Faithful.cappedAndSpaced_iff {cfg : Config} {reminders : List Reminder} (h : Faithful reminders) :
    CappedAndSpaced cfg reminders ↔ ∀ c ∈ reminders, c.stillDue cfg = true := by
  constructor
  · intro hgood c hc
    obtain ⟨later, earlier, rfl⟩ := List.append_of_mem hc
    have hsuffix : c :: earlier <:+ later ++ c :: earlier := ⟨later, rfl⟩
    have hcounted := h.of_suffix hsuffix
    refine stillDue_iff.mpr ⟨hgood.live c hc, ?_, fun last hlast => ?_⟩
    · have hmany := hgood.capped c.row.id
      have hcons := remindersOf_cons_self c earlier
      unfold remindersOf at hmany hcons
      rw [List.countP_append, hcons] at hmany
      rw [hcounted.count]
      unfold remindersOf
      omega
    · rw [hcounted.last] at hlast
      exact hgood.spaced c earlier hsuffix last hlast
  · intro hdue
    refine ⟨fun id => ?_, fun c earlier hsuffix last hlast => ?_, fun c hc => ?_⟩
    · -- The newest reminder of a recipient found fewer than the cap.
      induction reminders with
      | nil => exact Nat.zero_le _
      | cons c earlier ih =>
          by_cases hid : id = c.row.id
          · have hc := (stillDue_iff.mp (hdue c (by simp))).2.1
            rw [h.1.count] at hc
            rw [hid, remindersOf_cons_self]
            omega
          · rw [remindersOf_cons_ne hid]
            exact ih h.2 fun c' hc' => hdue c' (by simp [hc'])
    · have hc := (stillDue_iff.mp (hdue c (hsuffix.subset (by simp)))).2.2
      exact hc last (by rw [(h.of_suffix hsuffix).last, hlast])
    · exact (stillDue_iff.mp (hdue c hc)).1

/-! ## What a step has to do with reminders -/

def Write.sweep : Write → Option Sweep
  | .expired .. => some .expiry
  | .reminded .. => some .reminder
  | _ => none

def Kont.sweep : Kont → Option Sweep
  | .expired _ => some .expiry
  | .reminded .. => some .reminder
  | _ => none

/-- The mail a sweep is going to send or is about to claim. -/
def Proc.letter : Proc → Option (Sweep × Mail)
  | .writing _ (.expired mail) => mail.map fun m => (.expiry, m)
  | .writing _ (.reminded mail _ _) => some (.reminder, mail)
  | .expiredMailing mail => some (.expiry, mail)
  | .reminderMailing mail _ _ => some (.reminder, mail)
  | _ => none

/-- Only a sweep makes the transaction of a sweep, and it sends its own kind of mail. -/
structure Proc.Paired (l : Proc) : Prop where
  sweep : ∀ write k, l.pending = some (write, k) → write.sweep = k.sweep
  letter : ∀ s mail, l.letter = some (s, mail) → mail.sweep = s

theorem LoadedRequest.sweep_viewWrite (req : LoadedRequest) (now : Int) (ip ua : Option JsString) :
    (req.viewWrite now ip ua).sweep = none := by
  unfold LoadedRequest.viewWrite
  split <;> rfl

theorem LoadedRequest.sweep_consentWrite (req : LoadedRequest) (now : Int) :
    (req.consentWrite now).sweep = none := by
  unfold LoadedRequest.consentWrite
  split <;> rfl

theorem LoadedRequest.sweep_claimWrite (req : LoadedRequest) (data : ClaimData) :
    (req.claimWrite data).sweep = none := by
  unfold LoadedRequest.claimWrite
  split <;> rfl

theorem Prepares.sweep {cfg : Config} {w : World} {l : Proc} {write : Write} {k : Kont} {minted : Nat}
    (h : Prepares cfg w l write k minted) : write.sweep = k.sweep := by
  cases h with
  | viewed token ip ua req a => exact req.sweep_viewWrite _ ip ua
  | consented token req a hconsent => exact req.sweep_consentWrite _
  | claimed token dto ip ua req data hdata => exact req.sweep_claimWrite data
  | _ => rfl

/-- The mail of an expiry is written for the row that was read. -/
theorem next_expired {cfg : Config} {w w' : World} {l : Proc} {write : Write} {mail : Option Mail}
    (h : next cfg w l = some (w', .writing write (.expired mail))) :
    ∃ row unsigned, l = .expireUpdating row unsigned ∧ w' = w ∧
      write = .expired (passedOver w.db) row.expiredNotifiedAt.isSome w.now ∧
      mail = expiredMail row unsigned := by
  have hnext := next_spec h
  generalize hl' : Proc.writing write (.expired mail) = l' at hnext
  cases hnext with
  | commit write' k =>
      have hpending := k.pending_after write' w.db
      rw [← hl'] at hpending
      cases hpending
  | expireUpdate row unsigned mail' =>
      simp only [next, Option.some.injEq, Prod.mk.injEq, Proc.writing.injEq, Kont.expired.injEq] at h
      exact ⟨row, unsigned, rfl, rfl, h.2.1.symm, h.2.2.symm⟩
  | _ => cases hl'

/-- Whom a sweep writes to, and that nobody was told when it read the row. -/
theorem expiredMail_eq_some {row : SignatureRequest} {unsigned : List JsString} {mail : Mail}
    (h : expiredMail row unsigned = some mail) : row.expiredNotifiedAt = none ∧
      ∃ email, row.senderEmail = some email ∧ email ≠ [] ∧
        mail = .expired email row.documentName unsigned := by
  unfold expiredMail at h
  split at h
  · rename_i htold
    split at h
    · rename_i email hsender
      split at h
      · cases h
      · rename_i hempty
        exact ⟨htold, email, hsender, hempty, (Option.some.inj h).symm⟩
    · cases h
  · cases h

/-- A mail comes with a commit that gets ready, or was in hand before. -/
theorem next_letter {cfg : Config} {w w' : World} {l l' : Proc} (hown : l.Paired)
    (h : next cfg w l = some (w', l')) {s : Sweep} {mail : Mail} (hletter : l'.letter = some (s, mail)) :
    mail.sweep = s := by
  cases next_spec h with
  | commit write k =>
      have hfollows := k.follows_after write w.db
      generalize k.after write w.db = l at hletter hfollows
      cases hfollows with
      | mailing mail' => exact hown.letter s mail hletter
      | reminderMailing mail' rest total => exact hown.letter s mail hletter
      | _ => cases hletter
  | expireUpdate row unsigned mail' =>
      obtain ⟨_, _, -, -, -, hmail⟩ := next_expired h
      subst hmail
      obtain ⟨m, hm, heq⟩ := Option.map_eq_some_iff.mp hletter
      obtain ⟨rfl, rfl⟩ := Prod.mk.inj heq
      obtain ⟨-, _, -, -, rfl⟩ := expiredMail_eq_some hm
      rfl
  | remind rc rest total mail' hcompleted =>
      obtain ⟨_, _, -, -, -, rfl⟩ := next_reminded h
      obtain ⟨rfl, rfl⟩ := Prod.mk.inj (Option.some.inj hletter)
      rfl
  | _ => cases hletter

theorem act_paired {cfg : Config} {p : Nat} {c : Choice} {w w' : World} {l l' : Proc} (hown : l.Paired)
    (h : act cfg p c w l = some (w', l')) : l'.Paired where
  sweep write k hpending := by
    rcases act_spec (p := p) h with ⟨write', k', -, -, -, rfl⟩ | hready
    · rw [k'.pending_after] at hpending
      cases hpending
    · exact (hready.pending write k hpending).sweep
  letter s mail hletter := by
    rcases act_cases h with ⟨call, -, -, -, rfl⟩ | ⟨rfl, -⟩ | ⟨taken, -, hfail⟩ | ⟨-, -, -, rfl⟩
    · cases call <;> cases hletter
    · exact next_letter hown h hletter
    · obtain ⟨-, hcases⟩ := failEnqueue_spec hfail
      rcases hcases with ⟨_, _, _, -, rfl⟩ | ⟨-, rfl⟩ | ⟨_, _, -, rfl⟩ | ⟨_, _, _, -, rfl⟩ <;> cases hletter
    · cases hletter

theorem sweepsOutline (cfg : Config) (ok : System World Proc → Label Choice Event → Prop) :
    ProofOutline (service cfg) ok (fun _ => True) (fun _ _ l => l.Paired) (fun _ _ => True) where
  act _ p _ _ _ hs _ hact :=
    ⟨trivial, act_paired (p := p) (hs.proc p) hact, fun q _ => hs.proc q, fun _ _ => ⟨trivial, trivial⟩⟩
  env _ _ _ hs _ _ := ⟨trivial, hs.proc⟩

theorem sweepsHolds_start (sending : Sending) (now : Int) :
    Holds (fun _ => True) (fun _ _ l => l.Paired) (fun _ _ => True) (start sending now) where
  shared := trivial
  proc p := by
    simp only [start]
    split <;> constructor <;> intro _ _ h <;> cases h
  pair _ _ _ := trivial

/-- The update of a reminder matches one row at most, and the row that was found then. -/
theorem count_reminded {db : Db} (hids : (db.recipients.map Recipient.id).Nodup) {r : Recipient}
    (hr : r ∈ db.recipients) (token : Nat) (now : Int) :
    (Write.reminded r.id token r.reminderCount now).count db = 1 := by
  have hpos : 0 < (Write.reminded r.id token r.reminderCount now).count db :=
    matchCount_pos_of_mem hr (by simp)
  have hle : (Write.reminded r.id token r.reminderCount now).count db ≤ 1 := by
    simpa [Write.count, beq_eq_decide] using
      matchCount_key_le_one hids r.id fun q => q.reminderCount == r.reminderCount
  omega

theorem exists_of_count_reminded {db : Db} {id token n : Nat} {now : Int}
    (h : (Write.reminded id token n now).count db = 1) :
    ∃ r ∈ db.recipients, r.id = id ∧ r.reminderCount = n := by
  have hpos : 0 < (Write.reminded id token n now).count db := by omega
  obtain ⟨r, hr, hcond⟩ := exists_of_matchCount_pos hpos
  simp only [Bool.and_eq_true, beq_iff_eq] at hcond
  exact ⟨r, hr, hcond⟩

theorem findRecipient_of_mem {db : Db} (hids : (db.recipients.map Recipient.id).Nodup) {r : Recipient}
    (hr : r ∈ db.recipients) : db.findRecipient r.id = some r :=
  find?_eq_some_of_mem hids hr (by simp) (by simp)

/-- The rows keep the columns a reminder writes. -/
def SameReminders (db db' : Db) : Prop :=
  ∀ r' ∈ db'.recipients, ∃ r ∈ db.recipients, r'.id = r.id ∧ r'.reminderCount = r.reminderCount ∧
    r'.lastRemindedAt = r.lastRemindedAt

theorem SameReminders.refl (db : Db) : SameReminders db db := fun r hr => ⟨r, hr, rfl, rfl, rfl⟩

/-- A transaction that matches no row for a reminder leaves those columns alone. -/
theorem sameReminders_of_write {db : Db} {write : Write}
    (h : ∀ r ∈ db.recipients, ∀ token now, write ≠ .reminded r.id token r.reminderCount now) :
    SameReminders db (db.write write) := by
  intro r' hr'
  obtain ⟨r, hr, rfl⟩ := exists_of_mem_write hr'
  refine ⟨r, hr, onRecipient_id write r, ?_⟩
  have hspec := onRecipient_spec write r
  generalize write.onRecipient r = q at hspec ⊢
  cases hspec with
  | reminded token now hw => exact absurd hw (h r hr token now)
  | _ => exact ⟨rfl, rfl⟩

/-- What a step has to do with reminders, and what it leaves. -/
inductive ReminderStep (p : Nat) (w : World) : Proc → World → Proc → List (Errand Reminder Mail) → Prop
  | claims (id token n : Nat) (now : Int) (mail : Mail) (rest : List Nat) (total : Nat) (r : Recipient)
      (hr : r ∈ w.db.recipients) (hid : r.id = id) (hn : r.reminderCount = n)
      (hlink : mail.link = some (r.email, token)) :
      ReminderStep p w (.writing (.reminded id token n now) (.reminded mail rest total))
        (w.commit (.reminded id token n now) (.reminded mail rest total))
        (.reminderMailing mail rest total) [.took p mail ⟨w.db.request, r, now, mail⟩]
  | mails (mail : Mail) (rest : List Nat) (total : Nat) (hkind : mail.sweep = .reminder) :
      ReminderStep p w (.reminderMailing mail rest total) (w.mail mail) (.reminding rest total)
        [.gave p mail]
  | quiet (l : Proc) (w' : World) (l' : Proc) (hrows : SameReminders w.db w'.db)
      (hmailed : w'.mailedBy .reminder = w.mailedBy .reminder)
      (hhand : l'.reminder = none) : ReminderStep p w l w' l' []

theorem reminderStep_commit {p : Nat} {w : World} {write : Write} {k : Kont}
    (hids : (w.db.recipients.map Recipient.id).Nodup) (hpaired : write.sweep = k.sweep)
    (hmails : MailsLinks w.db write k) :
    ReminderStep p w (.writing write k) (w.commit write k) (k.after write w.db)
      (reminds p .next w (.writing write k)) := by
  -- Nothing but a reminder's transaction touches its columns, and nothing but its commit goes on to mail one.
  have hother : write.sweep ≠ some .reminder → reminds p .next w (.writing write k) = [] →
      ReminderStep p w (.writing write k) (w.commit write k) (k.after write w.db)
        (reminds p .next w (.writing write k)) := by
    intro hsweep hemits
    rw [hemits]
    refine ReminderStep.quiet _ _ _ (sameReminders_of_write fun r _ token now hw => ?_) rfl ?_
    · rw [hw] at hsweep
      exact hsweep rfl
    · have hfollows := k.follows_after write w.db
      generalize k.after write w.db = l at hfollows ⊢
      cases hfollows with
      | reminderMailing mail rest total => exact absurd hpaired hsweep
      | _ => rfl
  cases write with
  | reminded id token n now =>
      cases k with
      | reminded mail rest total =>
          by_cases hcount : (Write.reminded id token n now).count w.db = 1
          · obtain ⟨r, hr, rfl, rfl⟩ := exists_of_count_reminded hcount
            have hfound := findRecipient_of_mem hids hr
            simp only [reminds, Kont.after, if_pos hcount, hfound, Option.toList_some, List.map_cons,
              List.map_nil]
            have hlink : (r.email, token) ∈ mail.link.toList :=
              hmails.mailed r.id token (List.mem_singleton.mpr rfl) r hr rfl
            exact ReminderStep.claims _ _ _ _ _ _ _ r hr rfl rfl (Option.mem_toList.mp hlink)
          · simp only [reminds, Kont.after, if_neg hcount]
            refine ReminderStep.quiet _ _ _ (sameReminders_of_write fun r hr token' now' hw => ?_) rfl rfl
            obtain ⟨rfl, rfl, rfl, rfl⟩ := Write.reminded.inj hw
            exact hcount (count_reminded hids hr _ _)
      | _ => cases hpaired
  | _ => exact hother (by simp [Write.sweep]) rfl

theorem act_reminderStep {cfg : Config} {p : Nat} {c : Choice} {w w' : World} {l l' : Proc}
    (hids : (w.db.recipients.map Recipient.id).Nodup) (hpaired : l.Paired) (hmails : l.MailsLinks w.db)
    (h : act cfg p c w l = some (w', l')) : ReminderStep p w l w' l' (reminds p c w l) := by
  rcases act_cases h with ⟨call, rfl, hrest, rfl, rfl⟩ | ⟨rfl, hnext⟩ | ⟨taken, rfl, hfail⟩ |
    ⟨rfl, hbusy, rfl, rfl⟩
  · exact ReminderStep.quiet _ _ _ (SameReminders.refl _) rfl (by cases call <;> rfl)
  · cases hnext with
    | commit write k => exact reminderStep_commit hids (hpaired.sweep write k rfl) hmails
    | mailReminder mail rest total => exact ReminderStep.mails mail rest total (hpaired.letter .reminder mail rfl)
    | mailExpired mail =>
        -- What an expiry sweep mails is no reminder.
        refine ReminderStep.quiet _ _ _ (SameReminders.refl _) ?_ rfl
        simp [World.mailedBy, World.mail, hpaired.letter .expiry mail rfl]
    | stop l a hend =>
        cases l with
        | writing write k => exact hend.elim
        | reminderMailing mail rest total => simp [act, next] at h
        | _ => exact ReminderStep.quiet _ _ _ (SameReminders.refl _) rfl rfl
    | _ => exact ReminderStep.quiet _ _ _ (SameReminders.refl _) rfl rfl
  · obtain ⟨⟨q, rfl⟩, hcases⟩ := failEnqueue_spec hfail
    refine ReminderStep.quiet _ _ _ (SameReminders.refl _) rfl ?_
    rcases hcases with ⟨_, _, _, -, rfl⟩ | ⟨-, rfl⟩ | ⟨_, _, -, rfl⟩ | ⟨_, _, _, -, rfl⟩ <;> rfl
  · exact ReminderStep.quiet _ _ _ (SameReminders.refl _) rfl rfl

/-! ## Every run -/

/-- The rows and the record agree, every reminder is for its recipient, and what was mailed is what was
given to the mail server. -/
structure Tallied (s : Logged World (Errand Reminder Mail)) : Prop where
  rows : ∀ r ∈ s.state.db.recipients, Counted (Errand.notes s.log) r
  faithful : Faithful (Errand.notes s.log)
  addressed : ∀ c ∈ Errand.notes s.log, ∃ token, c.mail.link = some (c.row.email, token)
  taken : (Errand.notes s.log).map Reminder.mail = (Errand.taken s.log).map Prod.snd
  mailed : s.state.mailedBy .reminder = (Errand.given s.log).map Prod.snd

theorem Counted.same {reminders : List Reminder} {r r' : Recipient} (h : Counted reminders r)
    (hid : r'.id = r.id) (hcount : r'.reminderCount = r.reminderCount)
    (hlast : r'.lastRemindedAt = r.lastRemindedAt) : Counted reminders r' where
  count := by rw [hcount, hid, h.count]
  last := by rw [hlast, hid, h.last]

theorem onRecipient_reminded {r : Recipient} (token : Nat) (now : Int) :
    (Write.reminded r.id token r.reminderCount now).onRecipient r =
      { r with
        signingTokenHash := some (.sha256 token)
        lastRemindedAt := some now
        reminderCount := r.reminderCount + 1 } := by
  simp only [Write.onRecipient]
  exact updateRow_of_true (by simp)

/-- A claim puts one more reminder on record and says so in its recipient's row alone. -/
theorem Counted.claim {reminders : List Reminder} {r q : Recipient} (h : Counted reminders q)
    (hrq : q.id = r.id → q = r) (request : Option SignatureRequest) (token : Nat) (now : Int)
    (mail : Mail) : Counted (⟨request, r, now, mail⟩ :: reminders)
      ((Write.reminded r.id token r.reminderCount now).onRecipient q) := by
  by_cases hid : q.id = r.id
  · obtain rfl := hrq hid
    rw [onRecipient_reminded]
    refine ⟨?_, ?_⟩
    · show q.reminderCount + 1 = remindersOf q.id (⟨request, q, now, mail⟩ :: reminders)
      rw [h.count]
      exact (remindersOf_cons_self ⟨request, q, now, mail⟩ reminders).symm
    · exact (lastReminded_cons_self ⟨request, q, now, mail⟩ reminders).symm
  · have hsame : (Write.reminded r.id token r.reminderCount now).onRecipient q = q := by
      simp only [Write.onRecipient]
      exact updateRow_of_false (by simp [hid])
    rw [hsame]
    exact ⟨by rw [remindersOf_cons_ne hid, h.count], by rw [lastReminded_cons_ne hid, h.last]⟩

theorem Tallied.step {s s' : Logged World (Errand Reminder Mail)} {p : Nat} {l l' : Proc}
    {new : List (Errand Reminder Mail)} (h : Tallied s)
    (hids : (s.state.db.recipients.map Recipient.id).Nodup)
    (hstep : ReminderStep p s.state l s'.state l' new) (hlog : s'.log = new ++ s.log) : Tallied s' := by
  obtain ⟨w', log'⟩ := s'
  obtain rfl : log' = new ++ s.log := hlog
  cases hstep with
  | claims id token n now mail rest total r hr hid hn hlink =>
      subst hid hn
      refine ⟨fun q' hq' => ?_, ⟨h.rows r hr, h.faithful⟩, fun c hc => ?_, ?_, h.mailed⟩
      · obtain ⟨q, hq, rfl⟩ := exists_of_mem_write hq'
        exact (h.rows q hq).claim (fun hqr => eq_of_key_eq hids hq hr hqr) _ token now mail
      · rcases List.mem_cons.mp hc with rfl | hearlier
        · exact ⟨token, hlink⟩
        · exact h.addressed c hearlier
      · exact congrArg (mail :: ·) h.taken
  | mails mail rest total hkind =>
      refine ⟨h.rows, h.faithful, h.addressed, h.taken, ?_⟩
      show List.filter _ (mail :: s.state.mailed) = mail :: (Errand.given s.log).map Prod.snd
      rw [List.filter_cons_of_pos (by simp [hkind]), ← h.mailed]
      rfl
  | quiet l w' l' hrows hmailed hhand =>
      refine ⟨fun r' hr' => ?_, h.faithful, h.addressed, h.taken, hmailed.trans h.mailed⟩
      obtain ⟨r, hr, hid, hcount, hlast⟩ := hrows r' hr'
      exact (h.rows r hr).same hid hcount hlast

/-- What is known of the processes and the ids in every run. -/
structure Sweeping (s : System World Proc) : Prop where
  mails : Holds (fun w : World => (w.db.recipients.map Recipient.id).Nodup) (fun w _ l => l.MailsLinks w.db)
    (fun _ _ => True) s
  paired : Holds (fun _ => True) (fun _ _ l => l.Paired) (fun _ _ => True) s

theorem sweeping_step {cfg : Config} (s : System World Proc) (l : Label Choice Event)
    (s' : System World Proc) (h : Sweeping s) (hstep : (service cfg).step s l = some s') : Sweeping s' where
  mails := (mailsOutline cfg fun _ _ => True).holds_step s l s' h.mails trivial hstep
  paired := (sweepsOutline cfg fun _ _ => True).holds_step s l s' h.paired trivial hstep

theorem talliedOutline (cfg : Config) :
    ProofOutline (remindingService cfg) (fun s _ => True ∧ Sweeping s.unlogged)
      Tallied (fun _ _ _ => True) (fun _ _ => True) where
  act s p c sh l' hs hok hact := by
    obtain ⟨hplain, hlog⟩ := Program.logged_act hact
    obtain ⟨-, hmails, hpaired⟩ := hok
    have hstep := act_reminderStep (p := p) hmails.shared (hpaired.proc p) (hmails.proc p) hplain
    exact ⟨hs.shared.step hmails.shared hstep hlog, trivial, fun _ _ => trivial,
      fun _ _ => ⟨trivial, trivial⟩⟩
  env s e sh hs _ henv := by
    obtain ⟨hplain, hlog⟩ := Program.logged_env henv
    obtain ⟨w', log'⟩ := sh
    obtain rfl : log' = s.shared.log := hlog
    have hrows := (env_spec hplain).db
    refine ⟨⟨?_, hs.shared.faithful, hs.shared.addressed, hs.shared.taken, ?_⟩, fun _ => trivial⟩
    · rw [hrows]
      exact hs.shared.rows
    · rw [← hs.shared.mailed]
      cases e <;> obtain rfl := Option.some.inj hplain <;> rfl

theorem ReminderStep.deals {p : Nat} {w w' : World} {l l' : Proc} {new : List (Errand Reminder Mail)}
    (h : ReminderStep p w l w' l' new) : Errand.Deals Proc.reminder p l l' new := by
  cases h with
  | claims id token n now mail rest total r hr hid hn hlink => exact .took mail _ rfl
  | mails mail rest total hkind => exact .gave mail rfl rfl
  | quiet l w' l' hrows hmailed hhand => exact .kept (Or.inr hhand)

/-- Right after a send nobody has been reminded. -/
theorem sweeping_start {cfg : Config} {template : Option Template} {input : SendRequest}
    {senderName : Option JsString} {now : Int} {sending : Sending}
    (hsend : send cfg template input senderName now = .ok sending) : Sweeping (start sending now) where
  mails :=
    { shared := by
        obtain ⟨t, firstSigner, tokens, -, hdb⟩ := send_rows hsend
        show (sending.db.recipients.map Recipient.id).Nodup
        rw [hdb]
        exact newRecipients_ids input tokens now
      proc := by
        intro p
        simp only [start]
        split <;> trivial
      pair := fun _ _ _ => trivial }
  paired := sweepsHolds_start sending now

theorem tallied_start {cfg : Config} {template : Option Template} {input : SendRequest}
    {senderName : Option JsString} {now : Int} {sending : Sending}
    (hsend : send cfg template input senderName now = .ok sending) :
    Holds Tallied (fun _ _ _ => True) (fun _ _ => True) (start sending now).logging where
  shared := by
    refine ⟨fun r hr => ?_, trivial, fun c hc => (List.not_mem_nil hc).elim, rfl, rfl⟩
    obtain ⟨t, firstSigner, tokens, -, hdb⟩ := send_rows hsend
    have hr' : r ∈ sending.db.recipients := hr
    rw [hdb] at hr'
    obtain ⟨x, -, id, rfl⟩ := exists_of_mem_newRecipients hr'
    exact ⟨rfl, rfl⟩
  proc _ := trivial
  pair _ _ _ := trivial

/-- **Reminders are capped and spaced** exactly when every claim still finds its recipient due.  In every
run, each reminder that is mailed is that of one claim, no two of one, and it goes to the claim's
recipient. -/
theorem reminders_capped_iff {cfg : Config} {template : Option Template} {input : SendRequest}
    {senderName : Option JsString} {now : Int} {sending : Sending}
    {s : System (Logged World (Errand Reminder Mail)) Proc}
    (hsend : send cfg template input senderName now = .ok sending)
    (hs : Reaches (remindingService cfg) (fun _ _ => True) (start sending now).logging s) :
    let reminders := Errand.notes s.shared.log
    List.Subperm (s.shared.state.mailedBy .reminder) (reminders.map Reminder.mail) ∧
      (∀ c ∈ reminders, ∃ token, c.mail.link = some (c.row.email, token)) ∧
      (CappedAndSpaced cfg reminders ↔ ∀ c ∈ reminders, c.stillDue cfg = true) := by
  have hassumed := Reaches.assume (fun _ _ => True)
    (fun s l s' h _ hstep => sweeping_step s l s' h hstep) hs (sweeping_start hsend)
  have htallied := ((talliedOutline cfg).holds_of_reaches hassumed (tallied_start hsend)).shared
  have hgiven := Reaches.given_subperm Proc.reminder
    (fun s p c sh l' hok hact =>
      (act_reminderStep (p := p) hok.2.mails.shared (hok.2.paired.proc p) (hok.2.mails.proc p) hact).deals)
    hassumed (fun p => by simp only [start]; split <;> rfl)
  refine ⟨?_, htallied.addressed, htallied.faithful.cappedAndSpaced_iff⟩
  rw [htallied.mailed, htallied.taken]
  exact hgiven

/-! ## Two lists at once -/

/-- Replay a schedule right after the example's send, with the reminders on record. -/
def remindExample (schedule : List (Label Choice Event)) :
    Option (System (Logged World (Errand Reminder Mail)) Proc) :=
  match send exampleConfig (some exampleTemplate) exampleSigner none 0 with
  | .ok sending => (remindingService exampleConfig).run (start sending 0).logging schedule
  | .error _ => none

/-- One sweep after another, each after the days that are to pass. -/
theorem reminders_capped_one_by_one :
    ∃ s, remindExample (exampleRotation 4 .sweepReminders 5 ++ [.env (.clock (8 * dayMs))] ++
        exampleCall 3 .sweepReminders 5) = some s ∧
      (s.shared.state.mailedBy .reminder).length = 2 ∧
      CappedAndSpaced exampleConfig (Errand.notes s.shared.log) := by
  have hrun : ((remindExample (exampleRotation 4 .sweepReminders 5 ++ [.env (.clock (8 * dayMs))] ++
      exampleCall 3 .sweepReminders 5)).map fun s => ((s.shared.state.mailedBy .reminder).length,
        (Errand.notes s.shared.log).all (Reminder.stillDue exampleConfig))) = some (2, true) := by
    decide +kernel
  obtain ⟨s, hs, heq⟩ := Option.map_eq_some_iff.mp hrun
  obtain ⟨htwo, hdue⟩ := Prod.mk.inj heq
  refine ⟨s, hs, htwo, ?_⟩
  unfold remindExample at hs
  split at hs
  · rename_i sending hsend
    have hreaches : Reaches (remindingService exampleConfig) (fun _ _ => True) _ s :=
      Reaches.of_run (fun _ _ _ => trivial) hs
    exact (reminders_capped_iff hsend hreaches).2.2.mpr (List.all_eq_true.mp hdue)
  · cases hs

theorem not_cappedAndSpaced_of_times {cfg : Config} {reminders : List Reminder} {id : Nat} {now now' : Int}
    (h : reminders.map (fun c => (c.row.id, c.now)) = [(id, now'), (id, now)])
    (hsoon : now' < now + cfg.reminderAfterDays * dayMs) : ¬ CappedAndSpaced cfg reminders := by
  intro hgood
  obtain ⟨c, rest, rfl, hc, hrest⟩ := List.map_eq_cons_iff.mp h
  obtain ⟨d, rest', rfl, hd, -⟩ := List.map_eq_cons_iff.mp hrest
  obtain ⟨rfl, rfl⟩ := Prod.mk.inj hc
  obtain ⟨hid, rfl⟩ := Prod.mk.inj hd
  have hlast : lastReminded c.row.id (d :: rest') = some d.now := by
    rw [← hid]
    exact lastReminded_cons_self d rest'
  have hspaced := hgood.spaced c _ List.suffix_rfl d.now hlast
  omega

/-- Two sweeps find the same recipient due and mail one reminder each, at the same moment; and a reminder
is mailed for an envelope that was voided after the sweep had made its list. -/
theorem reminded_twice_at_once :
    (∃ s, remindExample (exampleRotation 4 .sweepReminders 1 ++ exampleCall 3 .sweepReminders 1 ++
          List.replicate 4 (.proc 2 .next) ++ List.replicate 4 (.proc 3 .next)) = some s ∧
        (s.shared.state.mailedBy .reminder).length = 2 ∧
        ¬ CappedAndSpaced exampleConfig (Errand.notes s.shared.log)) ∧
    ∃ s, remindExample (exampleRotation 4 .sweepReminders 1 ++ exampleCall 3 (.void none) 3 ++
          List.replicate 4 (.proc 2 .next)) = some s ∧
        (s.shared.state.mailedBy .reminder).length = 1 ∧
        ¬ CappedAndSpaced exampleConfig (Errand.notes s.shared.log) := by
  have htwice : ((remindExample (exampleRotation 4 .sweepReminders 1 ++ exampleCall 3 .sweepReminders 1 ++
      List.replicate 4 (.proc 2 .next) ++ List.replicate 4 (.proc 3 .next))).map fun s =>
        ((s.shared.state.mailedBy .reminder).length,
          (Errand.notes s.shared.log).map fun c => (c.row.id, c.now))) =
      some (2, [(0, 4 * dayMs), (0, 4 * dayMs)]) := by
    decide +kernel
  have hvoided : ((remindExample (exampleRotation 4 .sweepReminders 1 ++ exampleCall 3 (.void none) 3 ++
      List.replicate 4 (.proc 2 .next))).map fun s =>
        ((s.shared.state.mailedBy .reminder).length,
          (Errand.notes s.shared.log).any fun c => c.request.all fun row => !row.open_)) =
      some (1, true) := by
    decide +kernel
  obtain ⟨s, hs, heq⟩ := Option.map_eq_some_iff.mp htwice
  obtain ⟨s', hs', heq'⟩ := Option.map_eq_some_iff.mp hvoided
  obtain ⟨htwo, htimes⟩ := Prod.mk.inj heq
  obtain ⟨hone, hclosed⟩ := Prod.mk.inj heq'
  refine ⟨⟨s, hs, htwo, not_cappedAndSpaced_of_times htimes (by decide)⟩, s', hs', hone, fun hgood => ?_⟩
  obtain ⟨c, hc, hall⟩ := List.any_eq_true.mp hclosed
  obtain ⟨-, row, hrow, hopen, -⟩ := hgood.live c hc
  rw [hrow] at hall
  simp [hopen] at hall

end ESignSoft.Envelope
