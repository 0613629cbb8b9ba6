import ESignSoft.Envelope.VoidFinal

/-!
# What a void answers

`void` reads the envelope, updates it where it is still open or has expired, and answers `ok` without
looking at how many rows that were.  Whoever was not through when it read is then told that the envelope
was cancelled.

* `void_answers_honestly` — in the runs in which no void commits over a completed envelope, a void that
  has answered `ok`, or told anyone, leaves the envelope voided for good;
* `void_after_completion` — a run in which the last signature comes in between.
-/

namespace ESignSoft.Envelope

open ESignSoft.Lib.JsText ESignSoft.Lib.Table ESignSoft.Lib.Interleaving
open ESignSoft.Contracts ESignSoft.Signing

/-- The envelope that the update of a void finds is not completed. -/
def findsOpen (s : System World Proc) (l : Label Choice Event) : Bool :=
  match l with
  | .proc p .next =>
      match s.procs p with
      | .writing (.voided _ _) _ => s.shared.db.request.all fun row => row.status != .completed
      | _ => true
  | _ => true

/-- Such an update voids the envelope. -/
theorem closed_of_voided {db : Db} {passed : List Nat} {now : Int}
    (hopen : ∀ row, db.request = some row → row.status ≠ .completed) :
    Closed (db.write (.voided passed now)) := by
  intro row' hrow'
  obtain ⟨row, hrow, rfl⟩ := exists_of_write_request hrow'
  cases hstatus : row.status with
  | completed => exact absurd hstatus (hopen row hrow)
  | _ => simp [Write.onRequest, updateRow, SignatureRequest.open_, hstatus]

theorem findsOpen_commit {s : System World Proc} {p : Nat} {passed : List Nat} {now : Int} {k : Kont}
    (hl : s.procs p = .writing (.voided passed now) k) (h : findsOpen s (.proc p .next) = true) :
    Closed (s.shared.db.write (.voided passed now)) := by
  refine closed_of_voided fun row hrow => ?_
  simpa only [findsOpen, hl, hrow, Option.all_some, bne_iff_ne] using h

/-! ## The answer -/

/-- Where a void stands: once its update has committed, and once it answers `ok`, the envelope is voided. -/
def Voiding (db : Db) : Proc → Prop
  | .voidReading _ | .voidUpdating _ _ _ _ => True
  | .writing (.voided _ _) (.notify _) => True
  | .notifying _ => Closed db
  | .done .ok => Closed db
  | .done _ => True
  | _ => False

theorem Voiding.closed {db db' : Db} {l : Proc} (h : Voiding db l) (hclosed : Closed db → Closed db') :
    Voiding db' l := by
  unfold Voiding at h ⊢
  split at h <;> first | exact h | exact hclosed h

theorem voiding_next {cfg : Config} {w w' : World} {l l' : Proc} (h : Voiding w.db l)
    (hvoids : ∀ passed now k, l = .writing (.voided passed now) k → Closed (w.db.write (.voided passed now)))
    (hnext : next cfg w l = some (w', l')) : Voiding w'.db l' := by
  cases l with
  | voidReading reason =>
      simp only [next] at hnext
      split at hnext
      · cases hnext
        trivial
      · rename_i row hrow
        split at hnext
        · cases hnext
          trivial
        · split at hnext
          · -- It was voided before.
            rename_i hvoided
            cases hnext
            intro row' hrow'
            obtain rfl := Option.some.inj (hrow.symm.trans hrow')
            exact hvoided
          · cases hnext
            trivial
  | voidUpdating people documentName reason now =>
      cases hnext
      trivial
  | writing write k =>
      cases write with
      | voided passed now =>
          cases k with
          | notify jobs =>
              cases hnext
              exact hvoids passed now _ rfl
          | _ => exact h.elim
      | _ => exact h.elim
  | notifying jobs =>
      cases jobs with
      | nil =>
          cases hnext
          exact h
      | cons job rest =>
          cases hnext
          exact h
  | idle | done a => cases hnext
  | _ => exact h.elim

theorem voiding_act {cfg : Config} {p : Nat} {c : Choice} {w w' : World} {l l' : Proc}
    (h : Voiding w.db l) (hcall : ∀ call, c ≠ .call call)
    (hvoids : c = .next → ∀ passed now k, l = .writing (.voided passed now) k →
      Closed (w.db.write (.voided passed now)))
    (hact : act cfg p c w l = some (w', l')) : Voiding w'.db l' := by
  cases c with
  | call call => exact absurd rfl (hcall call)
  | next => exact voiding_next h (hvoids rfl) hact
  | fail taken =>
      obtain ⟨⟨q, rfl⟩, hcases⟩ := failEnqueue_spec hact
      rcases hcases with ⟨_, _, rest, rfl, rfl⟩ | ⟨rfl, rfl⟩ | ⟨_, rest, rfl, rfl⟩ | ⟨job, rest, a, rfl, rfl⟩
      · exact h.elim
      · exact h.elim
      · exact h
      · exact h.elim
  | crash =>
      simp only [act] at hact
      split at hact
      · cases hact
      · cases hact
        trivial

/-- Process `p` was called to void, has taken no other call since, and has answered `ok`. -/
def ReturnedFromVoid (cfg : Config) (s₀ s : System World Proc) (p : Nat) : Prop :=
  (∃ reason, s₀.procs p = .voidReading reason) ∧
    Reaches (service cfg) (fun s l => findsOpen s l = true ∧ ∀ call, l ≠ .proc p (.call call)) s₀ s ∧
    s.procs p = .done .ok

theorem closed_of_returned {cfg : Config} {s₀ s : System World Proc} {p : Nat}
    (h : ReturnedFromVoid cfg s₀ s p) : Closed s.shared.db := by
  obtain ⟨⟨reason, hcalled⟩, hrun, hok⟩ := h
  have hvoiding : Voiding s.shared.db (s.procs p) := by
    refine Reaches.invariant (I := fun t => Voiding t.shared.db (t.procs p)) ?_ hrun ?_
    · rintro a l b ha ⟨hopen, hcall⟩ hstep
      have hkept : Closed a.shared.db → Closed b.shared.db := fun hclosed => hclosed.step hstep
      cases l with
      | env e =>
          obtain ⟨sh, -, rfl⟩ := Program.step_env hstep
          exact ha.closed hkept
      | proc q c =>
          obtain ⟨sh, l', hact, rfl⟩ := Program.step_proc hstep
          by_cases hq : q = p
          · subst hq
            simp only [Function.update_self]
            refine voiding_act (p := q) ha (fun call hc => hcall call (by rw [hc])) ?_ hact
            rintro rfl passed now k hl
            exact findsOpen_commit hl hopen
          · have hp : p ≠ q := fun heq => hq heq.symm
            simp only [ne_eq, hp, not_false_eq_true, Function.update_of_ne]
            exact ha.closed hkept
    · rw [hcalled]
      trivial
  rw [hok] at hvoiding
  exact hvoiding

/-! ## The mails -/

/-- The job tells somebody that the envelope was cancelled. -/
def Job.cancels (job : Job) : Bool :=
  match job.payload with
  | .voidedEmail .. => true
  | _ => false

/-- Such a job is among those a process has still to queue. -/
def Proc.cancels : Proc → Bool
  | .sending jobs | .notifying jobs | .writing _ (.notify jobs) => jobs.any Job.cancels
  | _ => false

/-- What is queued says the truth, and so does what will be. -/
def Truthful (w : World) : Prop := (∃ job ∈ w.queue.accepted, job.cancels = true) → Closed w.db

def ProcTruthful (w : World) (l : Proc) : Prop :=
  l.cancels = true → (∃ passed now k, l = .writing (.voided passed now) k) ∨
    ((∃ jobs, l = .notifying jobs) ∧ Closed w.db)

theorem ProcTruthful.of_quiet (w : World) {l : Proc} (h : l.cancels = false) : ProcTruthful w l :=
  fun hcancels => absurd hcancels (by simp [h])

theorem Truthful.enqueue {w : World} {job : Job} (h : Truthful w)
    (hjob : job.cancels = true → Closed w.db) : Truthful (w.enqueue job) := by
  rintro ⟨j, hj, hcancels⟩
  rcases w.queue.accepted_add job with hsame | hadd
  · exact h ⟨j, by rwa [← hsame], hcancels⟩
  · have hmem : j ∈ job :: w.queue.accepted := by rwa [← hadd]
    rcases List.mem_cons.mp hmem with rfl | hold
    · exact hjob hcancels
    · exact h ⟨j, hold, hcancels⟩

/-- Who is about to queue a job that tells of a cancellation. -/
theorem ProcTruthful.closed {w : World} {l : Proc} (h : ProcTruthful w l) {job : Job} {rest : List Job}
    (hl : l = .sending (job :: rest) ∨ l = .notifying (job :: rest)) (hcancels : job.cancels = true) :
    Closed w.db := by
  have hany : l.cancels = true := by
    rcases hl with rfl | rfl <;> simp [Proc.cancels, hcancels]
  rcases h hany with ⟨passed, now, k, rfl⟩ | ⟨-, hclosed⟩
  · rcases hl with hl | hl <;> cases hl
  · exact hclosed

theorem Next.truthful {cfg : Config} {w w' : World} {l l' : Proc} (h : Next cfg w l w' l')
    (hw : Truthful w) (hl : ProcTruthful w l)
    (hvoids : ∀ passed now k, l = .writing (.voided passed now) k →
      Closed (w.db.write (.voided passed now))) : Truthful w' := by
  cases h with
  | commit write k =>
      intro hjob
      exact (hw hjob).write write
  | invite documentName invite rest => exact hw.enqueue fun hcancels => by cases hcancels
  | enqueueCompletion => exact hw.enqueue fun hcancels => by cases hcancels
  | enqueueFirst job rest => exact hw.enqueue (hl.closed (Or.inl rfl))
  | notify job rest => exact hw.enqueue (hl.closed (Or.inr rfl))
  | _ => exact hw

theorem next_procTruthful {cfg : Config} {w w' : World} {l l' : Proc} (h : next cfg w l = some (w', l'))
    (hl : ProcTruthful w l)
    (hvoids : ∀ passed now k, l = .writing (.voided passed now) k →
      Closed (w.db.write (.voided passed now))) : ProcTruthful w' l' := by
  intro hcancels
  have hnext := next_spec h
  cases hnext with
  | commit write k =>
      have hfollows := k.follows_after write w.db
      generalize k.after write w.db = l' at hfollows hcancels ⊢
      cases hfollows with
      | notifying jobs =>
          rcases hl hcancels with ⟨passed, now, k', hwriting⟩ | ⟨⟨_, hnot⟩, -⟩
          · obtain ⟨rfl, -⟩ := Proc.writing.inj hwriting
            exact Or.inr ⟨⟨jobs, rfl⟩, hvoids passed now _ rfl⟩
          · cases hnot
      | _ => cases hcancels
  | enqueueFirst job rest =>
      have hany : (Proc.sending (job :: rest)).cancels = true := by
        simp only [Proc.cancels, List.any_cons, Bool.or_eq_true] at hcancels ⊢
        exact Or.inr hcancels
      rcases hl hany with ⟨_, _, _, hnot⟩ | ⟨⟨_, hnot⟩, -⟩ <;> cases hnot
  | notify job rest =>
      have hany : (Proc.notifying (job :: rest)).cancels = true := by
        simp only [Proc.cancels, List.any_cons, Bool.or_eq_true] at hcancels ⊢
        exact Or.inr hcancels
      rcases hl hany with ⟨_, _, _, hnot⟩ | ⟨-, hclosed⟩
      · cases hnot
      · exact Or.inr ⟨⟨rest, rfl⟩, hclosed⟩
  | voidUpdate people documentName reason now jobs => exact Or.inl ⟨_, _, _, rfl⟩
  | resend id row rc job hrc hrole hcompleted hpending =>
      rcases next_notify h with ⟨_, _, _, _, hnot, -⟩ | ⟨_, _, _, -, -, -, -, hjobs⟩
      · cases hnot
      · obtain rfl := List.singleton_inj.mp hjobs
        cases hcancels
  | _ => cases hcancels

theorem failEnqueue_truthful {taken : Bool} {w w' : World} {l l' : Proc}
    (h : failEnqueue taken w l = some (w', l')) (hw : Truthful w) (hl : ProcTruthful w l) :
    Truthful w' ∧ ProcTruthful w' l' := by
  have htaken : ∀ job : Job, (job.cancels = true → Closed w.db) →
      Truthful (if taken then w.enqueue job else w) := by
    intro job hjob
    cases taken with
    | true => exact hw.enqueue hjob
    | false => exact hw
  unfold failEnqueue at h
  split at h
  · cases h
    exact ⟨htaken _ (by simp [Job.cancels, PendingInvite.job]), ProcTruthful.of_quiet _ rfl⟩
  · cases h
    exact ⟨htaken _ (by simp [Job.cancels]), ProcTruthful.of_quiet _ rfl⟩
  · rename_i job rest
    cases h
    refine ⟨htaken _ (hl.closed (Or.inr rfl)), fun hcancels => ?_⟩
    have hany : (Proc.notifying (job :: rest)).cancels = true := by
      simp only [Proc.cancels, List.any_cons, Bool.or_eq_true] at hcancels ⊢
      exact Or.inr hcancels
    rcases hl hany with ⟨_, _, _, hnot⟩ | ⟨-, hclosed⟩
    · cases hnot
    · refine Or.inr ⟨⟨rest, rfl⟩, ?_⟩
      cases taken <;> exact hclosed
  · cases h
    exact ⟨htaken _ (hl.closed (Or.inl rfl)), ProcTruthful.of_quiet _ rfl⟩
  · cases h

theorem truthfulOutline (cfg : Config) :
    ProofOutline (service cfg) (fun s l => findsOpen s l = true) Truthful (fun w _ l => ProcTruthful w l)
      (fun _ _ => True) where
  act := by
    intro s p c sh l' hs hopen hact
    have hkept : Closed s.shared.db → Closed sh.db := by
      intro hclosed
      rcases act_spec (p := p) hact with ⟨write, k, -, -, rfl, -⟩ | hready
      · exact hclosed.write write
      · rw [hready.same.db]
        exact hclosed
    refine ⟨?_, ?_, fun q _ hcancels => (hs.proc q hcancels).imp id (And.imp id hkept),
      fun _ _ => ⟨trivial, trivial⟩⟩
    all_goals
      rcases act_cases (p := p) hact with ⟨call, -, -, rfl, rfl⟩ | ⟨rfl, hnext⟩ | ⟨taken, -, hfail⟩ |
        ⟨-, -, rfl, rfl⟩
    · exact hs.shared
    · exact hnext.truthful hs.shared (hs.proc p) fun passed now k hl => findsOpen_commit hl hopen
    · exact (failEnqueue_truthful hfail hs.shared (hs.proc p)).1
    · exact hs.shared
    · cases call <;> exact ProcTruthful.of_quiet _ rfl
    · exact next_procTruthful hact (hs.proc p) fun passed now k hl => findsOpen_commit hl hopen
    · exact (failEnqueue_truthful hfail hs.shared (hs.proc p)).2
    · exact ProcTruthful.of_quiet _ rfl
  env := by
    rintro s e sh hs - henv
    cases e <;> obtain rfl := Option.some.inj henv <;> exact ⟨hs.shared, hs.proc⟩

theorem truthfulHolds_start {cfg : Config} {template : Option Template} {input : SendRequest}
    {senderName : Option JsString} {now : Int} {sending : Sending}
    (hsend : send cfg template input senderName now = .ok sending) :
    Holds Truthful (fun w _ l => ProcTruthful w l) (fun _ _ => True) (start sending now) where
  shared := by
    rintro ⟨job, hjob, -⟩
    cases hjob
  proc p := by
    intro hcancels
    simp only [start] at hcancels
    split at hcancels
    · -- The send's own jobs are invitations.
      obtain ⟨job, hjob, hjobCancels⟩ := List.any_eq_true.mp hcancels
      obtain ⟨t, r, -, token, -, rfl⟩ := exists_of_mem_jobs hsend hjob
      cases hjobCancels
    · cases hcancels
  pair _ _ _ := trivial

theorem Closed.of_reaches {cfg : Config} {ok : System World Proc → Label Choice Event → Prop}
    {s s' : System World Proc} (h : Closed s.shared.db) (hs : Reaches (service cfg) ok s s') :
    Closed s'.shared.db :=
  Reaches.invariant (I := fun t => Closed t.shared.db) (fun _ _ _ ha _ hstep => ha.step hstep) hs h

/-- **Void answers honestly**, in the runs in which no void commits over a completed envelope: a void
that has answered `ok`, and a cancellation that was queued, mean that the envelope is voided from then
on. -/
theorem void_answers_honestly {cfg : Config} {template : Option Template} {input : SendRequest}
    {senderName : Option JsString} {now : Int} {sending : Sending}
    (hsend : send cfg template input senderName now = .ok sending) {s s' : System World Proc}
    (hs : Reaches (service cfg) (fun s l => findsOpen s l = true) (start sending now) s)
    (hs' : Reaches (service cfg) (fun s l => findsOpen s l = true) s s')
    (h : (∃ s₀ p, ReturnedFromVoid cfg s₀ s p) ∨ ∃ job ∈ s.shared.queue.accepted, job.cancels = true) :
    (∀ row, s'.shared.db.request = some row → row.status = .voided) ∧
    ((∀ p, (s.procs p).sends = false) → s.shared.db.request ≠ none →
      ∃ row, s'.shared.db.request = some row ∧ row.status = .voided) := by
  have hclosed : Closed s.shared.db := by
    rcases h with ⟨s₀, p, hreturned⟩ | hjob
    · exact closed_of_returned hreturned
    · exact ((truthfulOutline cfg).holds_of_reaches hs (truthfulHolds_start hsend)).shared hjob
  have hclosed' : Closed s'.shared.db := hclosed.of_reaches hs'
  refine ⟨hclosed', fun hsends hrow => ?_⟩
  have hkept : (∀ p, (s'.procs p).sends = false) ∧ s'.shared.db.request ≠ none := by
    refine Reaches.invariant (I := fun r => (∀ p, (r.procs p).sends = false) ∧
      r.shared.db.request ≠ none) ?_ hs' ⟨hsends, hrow⟩
    rintro a l b ⟨hasends, harow⟩ - hstep
    exact kept_step hasends harow hstep
  obtain ⟨row, hrow'⟩ := Option.ne_none_iff_exists'.mp hkept.2
  exact ⟨row, hrow', hclosed' row hrow'⟩

/-- The process was called to void just now; it has answered `ok`. -/
def Proc.asksVoid : Proc → Bool
  | .voidReading _ => true
  | _ => false

def Proc.saysOk : Proc → Bool
  | .done .ok => true
  | _ => false

/-- The label calls process `p` to something. -/
def calls (p : Nat) : Label Choice Event → Bool
  | .proc q (.call _) => q == p
  | _ => false

theorem returned_of_runIf {cfg : Config} {s₀ s : System World Proc} {p : Nat}
    {schedule : List (Label Choice Event)} (hasks : (s₀.procs p).asksVoid = true)
    (hrun : (service cfg).runIf (fun s l => findsOpen s l && !calls p l) s₀ schedule = some s)
    (hok : (s.procs p).saysOk = true) : ReturnedFromVoid cfg s₀ s p := by
  refine ⟨?_, (Reaches.of_runIf hrun).mono fun a l h => ?_, ?_⟩
  · unfold Proc.asksVoid at hasks
    split at hasks
    · exact ⟨_, ‹_›⟩
    · cases hasks
  · rw [Bool.and_eq_true, Bool.not_eq_true'] at h
    refine ⟨h.1, ?_⟩
    rintro call rfl
    have hnot := h.2
    simp [calls] at hnot
  · unfold Proc.saysOk at hok
    split at hok
    · assumption
    · cases hok

/-- The first of two signers signs between a void's reading and its update. -/
theorem void_answers_honestly_raced :
    let input := exampleInput .parallel [exampleRecipient "a" .signer 1, exampleRecipient "b" .signer 1]
    let earlier := exampleConsent 1 0 ++ exampleConsent 2 1 ++ [.proc 3 (.call (.void none))]
    let voiding := .proc 3 .next :: exampleClaim 4 0 ++ List.replicate 5 (.proc 3 .next)
    let later := exampleCall 5 (.visit 1 (.submit exampleSignature none none)) 1
    ∃ s₀ s s', replayIf findsOpen exampleConfig exampleTemplate input 0 earlier = some s₀ ∧
      (service exampleConfig).runIf (fun s l => findsOpen s l && !calls 3 l) s₀ voiding = some s ∧
      (service exampleConfig).runIf findsOpen s later = some s' ∧
      s'.shared.signings.map Signing.token = [0] ∧ s'.shared.db.request.isSome = true ∧
      ∀ row, s'.shared.db.request = some row → row.status = .voided := by
  intro input earlier voiding later
  have hrun : ((replayIf findsOpen exampleConfig exampleTemplate input 0 earlier).bind fun s₀ =>
      ((service exampleConfig).runIf (fun s l => findsOpen s l && !calls 3 l) s₀ voiding).bind fun s =>
        ((service exampleConfig).runIf findsOpen s later).map fun s' =>
          ((s₀.procs 3).asksVoid, (s.procs 3).saysOk, s'.shared.signings.map Signing.token,
            s'.shared.db.request.isSome)) = some (true, true, [0], true) := by
    decide +kernel
  obtain ⟨s₀, hs₀, hrest⟩ := Option.bind_eq_some_iff.mp hrun
  obtain ⟨s, hs, hrest'⟩ := Option.bind_eq_some_iff.mp hrest
  obtain ⟨s', hs', heq⟩ := Option.map_eq_some_iff.mp hrest'
  simp only [Prod.mk.injEq] at heq
  obtain ⟨hasks, hok, htokens, hsome⟩ := heq
  obtain ⟨sending, hsend, hreaches⟩ := replayIf_spec hs₀
  have hreturned := returned_of_runIf hasks hs hok
  have hall : Reaches (service exampleConfig) (fun s l => findsOpen s l = true) (start sending 0) s :=
    hreaches.trans (hreturned.2.1.mono fun _ _ h => h.1)
  exact ⟨s₀, s, s', hs₀, hs, hs', htokens, hsome,
    (void_answers_honestly hsend hall (Reaches.of_runIf hs') (Or.inl ⟨s₀, 3, hreturned⟩)).1⟩

/-- The only signer signs, and the envelope completes, between a void's reading and its update: the void
answers `ok` all the same, and the signer is told that the envelope was cancelled. -/
theorem void_after_completion :
    let input := exampleInput .parallel [exampleRecipient "a" .signer 1]
    let schedule := exampleConsent 1 0 ++ exampleCall 2 (.void none) 1 ++ exampleClaim 3 0 ++
      List.replicate 3 (.proc 3 .next) ++ List.replicate 4 (.proc 2 .next)
    ((replay exampleConfig exampleTemplate input 0 schedule).map fun s =>
      ((s.procs 2).saysOk, s.shared.db.request.map SignatureRequest.status,
        s.shared.queue.accepted.map Job.id, s.shared.queue.accepted.any Job.cancels)) =
      some (true, some .completed, [.void 0, .complete], true) := by
  decide +kernel

end ESignSoft.Envelope
