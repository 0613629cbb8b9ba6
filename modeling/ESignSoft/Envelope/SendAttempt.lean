import ESignSoft.Envelope.Service

/-!
# A send from its first reading to its answer

`send` touches three things: the rows and the template's stamp, which one transaction writes, and the
queue, which a loop fills with one invitation after another.  The first enqueue that fails ends the loop,
and what is then undone is the rows alone.  `attempt` is the whole call under any faults of the database
and of the queue.  The worker is left out: a job it takes in between is an email that has gone out, with a
link that opens nothing once the rows are gone.

* `send_undone_iff` — exactly when a send that throws leaves nothing behind.
* `attempt_reaches` — what an attempt leaves is what the first process of the service leaves.
-/

namespace ESignSoft.Envelope

open ESignSoft.Lib.JsText ESignSoft.Lib.Interleaving ESignSoft.Contracts ESignSoft.Signing

/-- What a send reads and writes: its template and the template's stamp, and of the rows and the jobs
those of the envelope it makes. -/
structure Workspace where
  template : Option Template
  lastUsedAt : Option Int
  db : Db
  queue : Queue

/-- A new envelope has no rows and no jobs yet. -/
def Workspace.before (template : Option Template) (lastUsedAt : Option Int) : Workspace where
  template := template
  lastUsedAt := lastUsedAt
  db := { request := none, recipients := [] }
  queue := { present := [], accepted := [] }

/-- An enqueue that fails or times out for its caller may have reached the queue all the same. -/
inductive Enqueued
  | ok
  | failed (taken : Bool)
  deriving DecidableEq

/-- Which transactions of a send fail, and how each of its enqueues ends.  Without a session a send fails
like its first transaction. -/
structure Faults where
  reading : Bool
  creating : Bool
  enqueue : Nat → Enqueued
  deleting : Bool
  answering : Bool

inductive Thrown
  | refused (e : SendError)
  | database
  | serviceUnavailable (message : JsString)

/-- The loop over the invitations from the `i`-th on, up to the first enqueue that fails. -/
def enqueueAll (enqueue : Nat → Enqueued) : Nat → List Job → Queue → Queue × Bool
  | _, [], queue => (queue, true)
  | i, job :: rest, queue =>
      match enqueue i with
      | .ok => enqueueAll enqueue (i + 1) rest (queue.add job)
      | .failed taken => (if taken then queue.add job else queue, false)

/-- What a send does once its rows are there; it answers with the rows as it reads them then. -/
def finishSend (faults : Faults) (jobs : List Job) (ws : Workspace) : Workspace × Except Thrown Db :=
  let queued := enqueueAll faults.enqueue 0 jobs ws.queue
  let ws := { ws with queue := queued.1 }
  if queued.2 then
    if faults.answering then (ws, .error .database) else (ws, .ok ws.db)
  -- The request's recipients go with it; the stamp and the jobs stay.
  else if faults.deleting then (ws, .error .database)
  else
    ({ ws with db := ws.db.write .deleted }, .error (.serviceUnavailable
      (js "Could not send right now — the background service is unavailable. Please try again.")))

/-- `send`, under any faults. -/
def attempt (cfg : Config) (faults : Faults) (ws : Workspace) (input : SendRequest)
    (senderName : Option JsString) (now : Int) : Workspace × Except Thrown Db :=
  if faults.reading then (ws, .error .database)
  else
    match send cfg ws.template input senderName now with
    | .error e => (ws, .error (.refused e))
    | .ok s =>
        if faults.creating then (ws, .error .database)
        else finishSend faults s.jobs { ws with lastUsedAt := some now, db := s.db }

/-! ## All or nothing -/

/-- The job carries this token. -/
def Job.Carries (job : Job) (token : Nat) : Prop :=
  ∃ invite, job.payload = .invite invite ∧ invite.token = token

/-- One of the tokens the send minted. -/
def MintedFor (input : SendRequest) (token : Nat) : Prop :=
  ∃ r ∈ input.recipients, (mintTokens (inviteNow input) input.recipients).1 r.email = some token

/-- No row of the send exists, no queued job carries one of its tokens, and the template is stamped as
it was before. -/
structure NothingLeft (input : SendRequest) (lastUsedAt : Option Int) (ws : Workspace) : Prop where
  request : ws.db.request = none
  recipients : ws.db.recipients = []
  jobs : ∀ job ∈ ws.queue.present, ∀ token, MintedFor input token → ¬ job.Carries token
  stamp : ws.lastUsedAt = lastUsedAt

/-- A send that throws leaves nothing. -/
def AllOrNothing (cfg : Config) (faults : Faults) (template : Option Template) (lastUsedAt : Option Int)
    (input : SendRequest) (senderName : Option JsString) (now : Int) : Prop :=
  let result := attempt cfg faults (.before template lastUsedAt) input senderName now
  ∀ e, result.2 = .error e → NothingLeft input lastUsedAt result.1

/-- How many signers are invited at once. -/
def invitedCount (input : SendRequest) : Nat := input.recipients.countP (inviteNow input)

/-- The template exists, has fields, and has one for each signer. -/
def Sendable (input : SendRequest) (template : Option Template) : Prop :=
  ∃ t, template = some t ∧ t.fields ≠ [] ∧ assertSignersAreTagged input t.fields = .ok ()

/-- Nothing was written yet; or nothing is thrown; or the very first enqueue is the one that fails, the
queue does not have its job, the rows can be deleted, and the template happens to bear this stamp
already. -/
def Undone (faults : Faults) (template : Option Template) (lastUsedAt : Option Int) (input : SendRequest)
    (now : Int) : Prop :=
  (faults.reading = true ∨ ¬ Sendable input template ∨ faults.creating = true) ∨
  ((∀ i < invitedCount input, faults.enqueue i = .ok) ∧ faults.answering = false) ∨
  (0 < invitedCount input ∧ faults.enqueue 0 = .failed false ∧ faults.deleting = false ∧
    lastUsedAt = some now)

/-! ## What a send queues -/

/-- A send goes through exactly where its template allows it. -/
theorem send_ok_iff {cfg : Config} {template : Option Template} {input : SendRequest}
    {senderName : Option JsString} {now : Int} (hinput : SendRequestSchema cfg.platform input = true) :
    (∃ s, send cfg template input senderName now = .ok s) ↔ Sendable input template := by
  constructor
  · rintro ⟨s, hs⟩
    obtain ⟨t, -, ht, hfields, htagged, -⟩ := send_inv hs
    exact ⟨t, ht, hfields, htagged⟩
  · rintro ⟨t, rfl, hfields, htagged⟩
    -- There is a signer, so the envelope has somebody to be addressed to.
    obtain ⟨first, hfirst⟩ := SendRequestSchema.exists_firstSigner hinput
    unfold send
    simp [hfields, htagged, hfirst]

/-- One invitation for each signer who is invited now. -/
theorem jobs_length_of_send {cfg : Config} {template : Option Template} {input : SendRequest}
    {senderName : Option JsString} {now : Int} {s : Sending}
    (hinput : SendRequestSchema cfg.platform input = true)
    (h : send cfg template input senderName now = .ok s) : s.jobs.length = invitedCount input := by
  have hemails := SendRequestSchema.emails_nodup hinput
  obtain ⟨hknown, hissued, -⟩ := mintTokens_spec (inviteNow input) input.recipients
  have hminted : ∀ r ∈ input.recipients,
      ((mintTokens (inviteNow input) input.recipients).1 r.email).isSome = inviteNow input r := by
    intro r hr
    by_cases hi : inviteNow input r = true
    · rw [hi]
      exact hissued r hr hi
    · rw [Bool.eq_false_iff.mpr hi, Option.isSome_eq_false_iff, Option.isNone_iff_eq_none]
      by_contra hsome
      obtain ⟨t, ht⟩ := Option.ne_none_iff_exists'.mp hsome
      obtain ⟨-, q, hq, hqe, hqi⟩ := hknown _ t ht
      rw [Lib.Table.eq_of_key_eq hemails hq hr hqe] at hqi
      exact hi hqi
  obtain ⟨t, firstSigner, -, -, -, -, rfl⟩ := send_inv h
  show (List.filterMap _ input.recipients).length = invitedCount input
  rw [List.length_filterMap_eq_countP]
  exact List.countP_congr fun r hr => by simp [← hminted r hr]

/-- The loop ends well exactly when every enqueue does. -/
theorem enqueueAll_ok_iff (enqueue : Nat → Enqueued) (i : Nat) (jobs : List Job) (queue : Queue) :
    (enqueueAll enqueue i jobs queue).2 = true ↔ ∀ k < jobs.length, enqueue (i + k) = .ok := by
  induction jobs generalizing i queue with
  | nil => simp [enqueueAll]
  | cons job rest ih =>
      unfold enqueueAll
      cases he : enqueue i with
      | ok =>
          simp only
          rw [ih]
          constructor
          · intro h k hk
            cases k with
            | zero => exact he
            | succ k =>
                have := h k (by simpa using hk)
                rwa [show i + (k + 1) = i + 1 + k by omega]
          · intro h k hk
            have := h (k + 1) (by simpa using hk)
            rwa [show i + 1 + k = i + (k + 1) by omega]
      | failed taken =>
          simp only [Bool.false_eq_true, false_iff]
          intro h
          have := h 0 (by simp)
          rw [Nat.add_zero, he] at this
          cases this

theorem Queue.present_add {queue : Queue} {job j : Job} (h : j ∈ queue.present) :
    j ∈ (queue.add job).present := by
  unfold Queue.add
  split
  · exact h
  · exact List.mem_cons_of_mem _ h

/-- What the queue has stays queued. -/
theorem present_enqueueAll {enqueue : Nat → Enqueued} {i : Nat} {jobs : List Job} {queue : Queue}
    {job : Job} (h : job ∈ queue.present) : job ∈ (enqueueAll enqueue i jobs queue).1.present := by
  induction jobs generalizing i queue with
  | nil => exact h
  | cons first rest ih =>
      unfold enqueueAll
      cases enqueue i with
      | ok => exact ih (Queue.present_add h)
      | failed taken =>
          show job ∈ (if taken = true then queue.add first else queue).present
          split
          · exact Queue.present_add h
          · exact h

/-- Unless the first enqueue fails outright, its job stays in the queue whatever happens to the rest. -/
theorem first_queued {enqueue : Nat → Enqueued} {job : Job} {rest : List Job} {accepted : List Job}
    (h : enqueue 0 ≠ .failed false) :
    job ∈ (enqueueAll enqueue 0 (job :: rest) ⟨[], accepted⟩).1.present := by
  have hadded : job ∈ (Queue.add job ⟨[], accepted⟩).present := by simp [Queue.add]
  unfold enqueueAll
  cases he : enqueue 0 with
  | ok => exact present_enqueueAll hadded
  | failed taken =>
      cases taken with
      | true => exact hadded
      | false => exact absurd he h

/-! ## What is left -/

/-- Where nothing was written, nothing changes. -/
theorem attempt_unwritten {cfg : Config} {faults : Faults} {ws : Workspace} {input : SendRequest}
    {senderName : Option JsString} {now : Int} (hinput : SendRequestSchema cfg.platform input = true)
    (h : faults.reading = true ∨ ¬ Sendable input ws.template ∨ faults.creating = true) :
    (attempt cfg faults ws input senderName now).1 = ws := by
  unfold attempt
  cases hreading : faults.reading with
  | true => rfl
  | false =>
      cases hsend : send cfg ws.template input senderName now with
      | error e => rfl
      | ok s =>
          cases hcreating : faults.creating with
          | true => rfl
          | false =>
              have hsendable := (send_ok_iff hinput).mp ⟨s, hsend⟩
              simp [hreading, hcreating, hsendable] at h

/-- With its rows created and the template stamped, a send goes on to its invitations. -/
theorem attempt_eq_finishSend {cfg : Config} {faults : Faults} {ws : Workspace} {input : SendRequest}
    {senderName : Option JsString} {now : Int} {s : Sending}
    (hsend : send cfg ws.template input senderName now = .ok s) (hreading : ¬ faults.reading = true)
    (hcreating : ¬ faults.creating = true) :
    attempt cfg faults ws input senderName now =
      finishSend faults s.jobs { ws with lastUsedAt := some now, db := s.db } := by
  unfold attempt
  rw [if_neg hreading, hsend]
  simp only
  rw [if_neg hcreating]

/-- The jobs a send queues carry its tokens. -/
theorem exists_carried {cfg : Config} {template : Option Template} {input : SendRequest}
    {senderName : Option JsString} {now : Int} {s : Sending}
    (h : send cfg template input senderName now = .ok s) {job : Job} (hjob : job ∈ s.jobs) :
    ∃ token, MintedFor input token ∧ job.Carries token := by
  obtain ⟨t, r, hr, token, htoken, rfl⟩ := exists_of_mem_jobs h hjob
  exact ⟨token, ⟨r, hr, htoken⟩, _, rfl, rfl⟩

theorem not_nothingLeft_of_row {input : SendRequest} {lastUsedAt : Option Int} {ws : Workspace}
    {row : SignatureRequest} (hrow : ws.db.request = some row) : ¬ NothingLeft input lastUsedAt ws := by
  intro h
  have hnone := h.request
  rw [hrow] at hnone
  cases hnone

/-- With the rows deleted, nothing is left only where the queue has no job at all and the stamp is no
news. -/
theorem nothingLeft_deleted_iff (enqueue : Nat → Enqueued) {jobs : List Job} {ws : Workspace}
    {input : SendRequest} {lastUsedAt : Option Int} (hqueue : ws.queue = ⟨[], []⟩)
    (hjobs : ∀ job ∈ jobs, ∃ token, MintedFor input token ∧ job.Carries token) (hpos : 0 < jobs.length) :
    NothingLeft input lastUsedAt { ws with
        db := ws.db.write .deleted, queue := (enqueueAll enqueue 0 jobs ws.queue).1 } ↔
      enqueue 0 = .failed false ∧ ws.lastUsedAt = lastUsedAt := by
  cases jobs with
  | nil => cases hpos
  | cons job rest =>
      constructor
      · intro h
        refine ⟨?_, h.stamp⟩
        by_contra hfirst
        obtain ⟨token, hminted, hcarries⟩ := hjobs job (by simp)
        have hqueued := h.jobs job
        rw [hqueue] at hqueued
        exact hqueued (first_queued hfirst) token hminted hcarries
      · rintro ⟨hfirst, hstamp⟩
        have hempty : (enqueueAll enqueue 0 (job :: rest) ws.queue).1 = ⟨[], []⟩ := by
          rw [hqueue]
          simp [enqueueAll, hfirst]
        exact ⟨rfl, rfl, fun j hj => by simp [hempty] at hj, hstamp⟩

/-- From the rows on, a send that throws leaves nothing only where it queued nothing at all and the stamp
is no news. -/
theorem finishSend_undone_iff {faults : Faults} {jobs : List Job} {ws : Workspace} {input : SendRequest}
    {lastUsedAt : Option Int} {row : SignatureRequest} (hrow : ws.db.request = some row)
    (hqueue : ws.queue = ⟨[], []⟩)
    (hjobs : ∀ job ∈ jobs, ∃ token, MintedFor input token ∧ job.Carries token) :
    (∀ e, (finishSend faults jobs ws).2 = .error e → NothingLeft input lastUsedAt (finishSend faults jobs ws).1) ↔
      ((∀ i < jobs.length, faults.enqueue i = .ok) ∧ faults.answering = false) ∨
      (0 < jobs.length ∧ faults.enqueue 0 = .failed false ∧ faults.deleting = false ∧
        ws.lastUsedAt = lastUsedAt) := by
  have hall := enqueueAll_ok_iff faults.enqueue 0 jobs ws.queue
  simp only [Nat.zero_add] at hall
  unfold finishSend
  simp only
  by_cases hok : ∀ i < jobs.length, faults.enqueue i = .ok
  · rw [if_pos (hall.mpr hok)]
    have hfirst : ¬ (0 < jobs.length ∧ faults.enqueue 0 = .failed false) := by
      rintro ⟨hpos, hfails⟩
      rw [hok 0 hpos] at hfails
      cases hfails
    cases hanswering : faults.answering with
    | true =>
        -- The caller is told of a failure, and the envelope is out.
        constructor
        · intro h
          exact absurd (h .database rfl) (not_nothingLeft_of_row hrow)
        · rintro (⟨-, h⟩ | ⟨hpos, hfails, -⟩)
          · cases h
          · exact absurd ⟨hpos, hfails⟩ hfirst
    | false =>
        refine ⟨fun _ => Or.inl ⟨hok, rfl⟩, fun _ e he => ?_⟩
        cases he
  · rw [if_neg fun h => hok (hall.mp h)]
    have hpos : 0 < jobs.length := by
      by_contra hnone
      exact hok fun i hi => absurd (Nat.zero_lt_of_lt hi) hnone
    cases hdeleting : faults.deleting with
    | true =>
        constructor
        · intro h
          exact absurd (h .database rfl) (not_nothingLeft_of_row hrow)
        · rintro (⟨h, -⟩ | ⟨-, -, h, -⟩)
          · exact absurd h hok
          · cases h
    | false =>
        have hleft : NothingLeft input lastUsedAt _ ↔ _ :=
          nothingLeft_deleted_iff faults.enqueue hqueue hjobs hpos
        constructor
        · intro h
          obtain ⟨hfirst, hstamp⟩ := hleft.mp (h _ rfl)
          exact Or.inr ⟨hpos, hfirst, rfl, hstamp⟩
        · rintro (⟨h, -⟩ | ⟨-, hfirst, -, hstamp⟩) e -
          · exact absurd h hok
          · exact hleft.mpr ⟨hfirst, hstamp⟩

/-- **All or nothing**, and exactly when: the deletion undoes the rows, but neither the stamp of the same
transaction nor an invitation queued before the one that failed. -/
theorem send_undone_iff {cfg : Config} {faults : Faults} {template : Option Template}
    {lastUsedAt : Option Int} {input : SendRequest} {senderName : Option JsString} {now : Int}
    (hinput : SendRequestSchema cfg.platform input = true) :
    AllOrNothing cfg faults template lastUsedAt input senderName now ↔
      Undone faults template lastUsedAt input now := by
  by_cases hunwritten : faults.reading = true ∨ ¬ Sendable input template ∨ faults.creating = true
  · refine ⟨fun _ => Or.inl hunwritten, fun _ e _ => ?_⟩
    rw [attempt_unwritten hinput hunwritten]
    exact ⟨rfl, rfl, fun job hjob => absurd hjob (List.not_mem_nil), rfl⟩
  · have hwritten := hunwritten
    push Not at hwritten
    obtain ⟨hreading, hsendable, hcreating⟩ := hwritten
    have hok : ∃ s, send cfg template input senderName now = .ok s := (send_ok_iff hinput).mpr hsendable
    obtain ⟨s, hs⟩ := hok
    have hattempt : attempt cfg faults (.before template lastUsedAt) input senderName now =
        finishSend faults s.jobs ⟨template, some now, s.db, ⟨[], []⟩⟩ :=
      attempt_eq_finishSend hs hreading hcreating
    obtain ⟨t, firstSigner, tokens, -, hdb⟩ := send_rows hs
    have hrow : s.db.request = some (newRequest cfg t input senderName firstSigner now) := by rw [hdb]
    unfold AllOrNothing Undone
    simp only
    rw [hattempt, finishSend_undone_iff hrow rfl fun job hjob => exists_carried hs hjob,
      jobs_length_of_send hinput hs]
    constructor
    · rintro (h | ⟨hpos, hfails, hdeleting, hstamp⟩)
      · exact Or.inr (Or.inl h)
      · exact Or.inr (Or.inr ⟨hpos, hfails, hdeleting, hstamp.symm⟩)
    · rintro (h | h | ⟨hpos, hfails, hdeleting, hstamp⟩)
      · exact absurd h hunwritten
      · exact Or.inl h
      · exact Or.inr ⟨hpos, hfails, hdeleting, hstamp.symm⟩

/-- Two signers at once, a sound database and a queue that is lost after one job. -/
def exampleSend : SendRequest :=
  exampleInput .parallel [exampleRecipient "a" .signer 1, exampleRecipient "b" .signer 1]

def lostQueue (after : Nat) : Faults where
  reading := false
  creating := false
  enqueue := fun i => if i < after then .ok else .failed false
  deleting := false
  answering := false

theorem send_undone_sound : SendRequestSchema exampleConfig.platform exampleSend = true ∧
    (AllOrNothing exampleConfig (lostQueue 2) (some exampleTemplate) none exampleSend none 0 ↔
      Undone (lostQueue 2) (some exampleTemplate) none exampleSend 0) :=
  ⟨by decide +kernel, send_undone_iff (by decide +kernel)⟩

/-- The second enqueue fails: the first signer's invitation stays queued, with a link that opens nothing.
And however early the first failure, a template that was never used is stamped as used. -/
theorem failed_send_leaves_traces : SendRequestSchema exampleConfig.platform exampleSend = true ∧
    (∃ message ws, attempt exampleConfig (lostQueue 1) (.before (some exampleTemplate) none) exampleSend none 0 =
      (ws, .error (.serviceUnavailable message)) ∧ MintedFor exampleSend 0 ∧
      (∃ job ∈ ws.queue.present, job.Carries 0) ∧ ¬ NothingLeft exampleSend none ws) ∧
    ¬ AllOrNothing exampleConfig (lostQueue 0) (some exampleTemplate) none exampleSend none 0 := by
  refine ⟨by decide +kernel, ⟨_, _, rfl, ?_, ?_, fun h => ?_⟩, fun h => ?_⟩
  · exact ⟨exampleRecipient "a" .signer 1, by simp [exampleSend, exampleInput], by decide +kernel⟩
  · exact ⟨_, List.mem_singleton_self _, _, rfl, rfl⟩
  · have hstamp := h.stamp
    cases hstamp
  · have hstamp := (h _ rfl).stamp
    cases hstamp

/-! ## The attempt among the runs of the service -/

/-- The loop is what process 0 does from the queueing of its jobs on. -/
theorem enqueueAll_reaches (cfg : Config) (enqueue : Nat → Enqueued) (i : Nat) (jobs : List Job)
    (s : System World Proc) (hproc : s.procs 0 = .sending jobs) :
    let queued := enqueueAll enqueue i jobs s.shared.queue
    ∃ t, Reaches (service cfg) (fun _ _ => True) s t ∧ t.shared.db = s.shared.db ∧
      t.shared.queue = queued.1 ∧
      if queued.2 then t.procs 0 = .sending [] else ∃ a, t.procs 0 = .writing .deleted (.answer a) := by
  induction jobs generalizing i s with
  | nil => exact ⟨s, .refl s, rfl, rfl, hproc⟩
  | cons job rest ih =>
      unfold enqueueAll
      cases enqueue i with
      | ok =>
          let s' : System World Proc := ⟨s.shared.enqueue job, Function.update s.procs 0 (.sending rest)⟩
          have hmove : Moves (service cfg) (fun _ _ => True) s s' :=
            ⟨.proc 0 .next, trivial, by simp [service, Program.step, act, next, hproc, s']⟩
          obtain ⟨t, hreaches, hdb, hqueue, hend⟩ := ih (i + 1) s' (by simp [s'])
          exact ⟨t, Relation.ReflTransGen.head hmove hreaches, hdb, hqueue, hend⟩
      | failed taken =>
          let shared := if taken then s.shared.enqueue job else s.shared
          let a : Answer := .serviceUnavailable
            (js "Could not send right now — the background service is unavailable. Please try again.")
          have hmove : Moves (service cfg) (fun _ _ => True) s
              ⟨shared, Function.update s.procs 0 (.writing .deleted (.answer a))⟩ :=
            ⟨.proc 0 (.fail taken), trivial, by simp [service, Program.step, act, failEnqueue, hproc, shared, a]⟩
          refine ⟨_, Relation.ReflTransGen.single hmove, ?_, ?_, a, by simp⟩
          · cases taken with
            | true => rfl
            | false => rfl
          · cases taken with
            | true => rfl
            | false => rfl

/-- **The attempt is a run of the service**: once its rows are there, the first process of the service can
leave the same rows and the same queue and be done, dying where a transaction of the attempt fails. -/
theorem attempt_reaches {cfg : Config} {faults : Faults} {template : Option Template}
    {lastUsedAt : Option Int} {input : SendRequest} {senderName : Option JsString} {now : Int} {s : Sending}
    (hsend : send cfg template input senderName now = .ok s) (hreading : faults.reading = false)
    (hcreating : faults.creating = false) :
    ∃ t answer, Reaches (service cfg) (fun _ _ => True) (start s now) t ∧ t.procs 0 = .done answer ∧
      t.shared.db = (attempt cfg faults (.before template lastUsedAt) input senderName now).1.db ∧
      t.shared.queue = (attempt cfg faults (.before template lastUsedAt) input senderName now).1.queue := by
  have hattempt : attempt cfg faults (.before template lastUsedAt) input senderName now =
      finishSend faults s.jobs ⟨template, some now, s.db, ⟨[], []⟩⟩ :=
    attempt_eq_finishSend hsend (by simp [hreading]) (by simp [hcreating])
  rw [hattempt]
  obtain ⟨t, hreaches, hdb, hqueue, hend⟩ :=
    enqueueAll_reaches cfg faults.enqueue 0 s.jobs (start s now) rfl
  have hdb' : t.shared.db = s.db := hdb
  -- One more step: the answer, the deletion or the death of the process.
  have hlast : ∀ c sh l, act cfg 0 c t.shared (t.procs 0) = some (sh, l) →
      Reaches (service cfg) (fun _ _ => True) (start s now) ⟨sh, Function.update t.procs 0 l⟩ := by
    intro c sh l hact
    have hmove : Moves (service cfg) (fun _ _ => True) t ⟨sh, Function.update t.procs 0 l⟩ :=
      ⟨.proc 0 c, trivial, by simp [service, Program.step, hact]⟩
    exact Relation.ReflTransGen.tail hreaches hmove
  unfold finishSend
  simp only
  have hend' : if (enqueueAll faults.enqueue 0 s.jobs ⟨[], []⟩).2 = true then t.procs 0 = .sending []
      else ∃ a, t.procs 0 = .writing .deleted (.answer a) := hend
  cases hqueued : (enqueueAll faults.enqueue 0 s.jobs ⟨[], []⟩).2 with
  | true =>
      rw [if_pos hqueued] at hend'
      have hstep : act cfg 0 .next t.shared (t.procs 0) = some (t.shared, .done .ok) := by
        simp [act, next, hend']
      refine ⟨_, .ok, hlast _ _ _ hstep, by simp, ?_⟩
      rw [if_pos rfl]
      cases faults.answering with
      | true => exact ⟨hdb', hqueue⟩
      | false => exact ⟨hdb', hqueue⟩
  | false =>
      rw [if_neg (by simp [hqueued])] at hend'
      obtain ⟨a, ha⟩ := hend'
      rw [if_neg (by simp)]
      cases faults.deleting with
      | true =>
          have hstep : act cfg 0 .crash t.shared (t.procs 0) = some (t.shared, .done .failed) := by
            simp [act, ha, Proc.atRest]
          exact ⟨_, .failed, hlast _ _ _ hstep, by simp, hdb', hqueue⟩
      | false =>
          have hstep : act cfg 0 .next t.shared (t.procs 0) =
              some (t.shared.commit .deleted (.answer a), .done a) := by
            simp [act, next, ha, Kont.after]
          refine ⟨_, a, hlast _ _ _ hstep, by simp, ?_, hqueue⟩
          rfl

end ESignSoft.Envelope
