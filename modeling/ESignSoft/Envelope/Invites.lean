import ESignSoft.Envelope.Groups
import ESignSoft.Envelope.Signatures

/-!
# Invitations of hand-offs under concurrency

Two submits that finish a routing group together may both decide that the next group's turn has come
and both mint tokens.  Only one of them writes the rows, but each goes on to queue the invitations it
has prepared: the loser's are harmless only if the queue drops them, which it does while the winner's
job is still in it.  Nor does a group hand on to the next when somebody who does not sign is waiting in
the first one.

* `invitesOnce` — the runs in which every invitation of a loser is dropped;
* `every_hand_off_invited` — there no invitation misses its row's link and, when the submits are over,
  nobody of the next group is left without one;
* `hand_off_invite_of_loser` — a run in which the queue takes the loser's.
-/

namespace ESignSoft.Envelope

open ESignSoft.Lib.JsText ESignSoft.Lib.Table ESignSoft.Lib.Interleaving
open ESignSoft.Contracts ESignSoft.Signing

/-- Only visits run and nothing fails; where a hand-off queues an invitation whose row it did not write,
the queue still holds a job with that id. -/
def invitesOnce (s : System World Proc) (l : Label Choice Event) : Bool :=
  signingStep l &&
    match l with
    | .proc p .next =>
        match s.procs p with
        | .inviting _ ((invite, false) :: _) =>
            s.shared.queue.present.any fun job => job.id == .invite invite.id
        | _ => true
    | _ => true

/-- The next group after that of order `g` is that of order `n`, and both have somebody to sign. -/
structure Consecutive (turns : List (RecipientRole × Nat)) (g n : Nat) : Prop where
  signer : (.signer, g) ∈ turns
  next : (.signer, n) ∈ turns
  lt : g < n
  between : ∀ t ∈ turns, t.2 ≤ g ∨ n ≤ t.2

/-- Somebody who does not sign waits in the first group and so keeps the second from its turn. -/
def CcBlocks (turns : List (RecipientRole × Nat)) (first : Nat) : Prop :=
  (.cc, first) ∈ turns ∧ ∃ n, Consecutive turns first n

/-- The job invites this recipient with this token. -/
def Job.Invites (job : Job) (id token : Nat) : Prop :=
  job.id = .invite id ∧ ∃ invite, job.payload = .invite invite ∧ invite.token = token

/-! ## What a hand-off writes and whom it invites -/

theorem mem_handOffs_signer {group : List (Recipient × Option Nat)} {id token : Nat} :
    HandOff.signer id token ∈ handOffs group ↔ ∃ r, (r, some token) ∈ group ∧ r.id = id := by
  constructor
  · intro h
    obtain ⟨⟨r, t⟩, hmem, heq⟩ := List.mem_map.mp h
    cases t with
    | none => cases heq
    | some t =>
        obtain ⟨hid, rfl⟩ := HandOff.signer.inj heq
        exact ⟨r, hmem, hid⟩
  · rintro ⟨r, hmem, rfl⟩
    exact List.mem_map.mpr ⟨_, hmem, rfl⟩

theorem mem_handOffInvites {group : List (Recipient × Option Nat)} {invite : PendingInvite} :
    invite ∈ handOffInvites group ↔
      ∃ r token, (r, some token) ∈ group ∧ invite = ⟨r.id, r.email, r.name, token⟩ := by
  unfold handOffInvites
  rw [List.mem_filterMap]
  constructor
  · rintro ⟨⟨r, t⟩, hmem, heq⟩
    obtain ⟨token, rfl, rfl⟩ := Option.map_eq_some_iff.mp heq
    exact ⟨r, token, hmem, rfl⟩
  · rintro ⟨r, token, hmem, rfl⟩
    exact ⟨_, hmem, rfl⟩

/-- One recipient gets one token. -/
theorem mintGroup_token {group : List Recipient} (hids : (group.map Recipient.id).Nodup) {minted : Nat}
    {r r' : Recipient} {token token' : Option Nat} (h : (r, token) ∈ mintGroup group minted)
    (h' : (r', token') ∈ mintGroup group minted) (hid : r.id = r'.id) : token = token' := by
  have hkeys : ((mintGroup group minted).map fun m => m.1.id).Nodup := by
    have hmap : (mintGroup group minted).map (fun m => m.1.id) =
        ((mintGroup group minted).map Prod.fst).map Recipient.id := by
      rw [List.map_map]
      rfl
    rw [hmap, map_fst_mintGroup]
    exact hids
  exact (Prod.mk.inj (eq_of_key_eq hkeys h h' hid)).2

/-- The invitations are those of the signers the hand-off writes, each with the token it stores. -/
structure HandsOut (group : List HandOff) (invites : List PendingInvite) : Prop where
  signer : ∀ invite ∈ invites, HandOff.signer invite.id invite.token ∈ group
  invite : ∀ id token, HandOff.signer id token ∈ group → ∃ invite ∈ invites, invite.id = id
  unique : ∀ id token token', HandOff.signer id token ∈ group → HandOff.signer id token' ∈ group →
    token = token'

theorem handsOut_mintGroup {db : Db} (hids : (db.recipients.map Recipient.id).Nodup)
    (order minted : Nat) :
    HandsOut (handOffs (mintGroup (pendingGroup db order) minted))
      (handOffInvites (mintGroup (pendingGroup db order) minted)) := by
  have hgroup : ((pendingGroup db order).map Recipient.id).Nodup :=
    hids.sublist (List.filter_sublist.map Recipient.id)
  constructor
  · intro invite hinvite
    obtain ⟨r, token, hmem, rfl⟩ := mem_handOffInvites.mp hinvite
    exact mem_handOffs_signer.mpr ⟨r, hmem, rfl⟩
  · intro id token hsigner
    obtain ⟨r, hmem, rfl⟩ := mem_handOffs_signer.mp hsigner
    exact ⟨_, mem_handOffInvites.mpr ⟨r, token, hmem, rfl⟩, rfl⟩
  · intro id token token' hsigner hsigner'
    obtain ⟨r, hmem, hid⟩ := mem_handOffs_signer.mp hsigner
    obtain ⟨r', hmem', hid'⟩ := mem_handOffs_signer.mp hsigner'
    exact Option.some.inj (mintGroup_token hgroup hmem hmem' (hid.trans hid'.symm))

/-- The row of the recipient holds the link made from this token. -/
def Settled (db : Db) (id token : Nat) : Prop :=
  ∀ r ∈ db.recipients, r.id = id → r.status ≠ .pending ∧ r.signingTokenHash = some (.sha256 token)

theorem Settled.write {db : Db} {id token : Nat} (h : Settled db id token) {w : Write}
    (hw : w.signing = true) : Settled (db.write w) id token := by
  intro r' hr' hid
  obtain ⟨r, hr, rfl⟩ := exists_of_mem_write hr'
  rw [onRecipient_id] at hid
  obtain ⟨hnot, hhash⟩ := h r hr hid
  exact ⟨fun hpending => hnot (onRecipient_pending hpending),
    (hash_of_onRecipient hw hnot).trans hhash⟩

/-- A hand-off that finds the row of an invitation waiting stores its link. -/
theorem settled_of_handedOff {db : Db} {group : List HandOff} {now : Int} {invites : List PendingInvite}
    (hroles : Roles db) (hw : WriteRoles db (.handedOff group now)) (hout : HandsOut group invites)
    {invite : PendingInvite} (hinvite : invite ∈ invites) (hstores : storesInvite db invite = true) :
    Settled (db.write (.handedOff group now)) invite.id invite.token := by
  obtain ⟨q, hq, hcond⟩ := List.any_eq_true.mp hstores
  simp only [Bool.and_eq_true, beq_iff_eq] at hcond
  have hsigner := hout.signer invite hinvite
  intro r' hr' hid
  obtain ⟨r, hr, rfl⟩ := exists_of_mem_write hr'
  rw [onRecipient_id] at hid
  obtain rfl : q = r := eq_of_key_eq hroles.ids hq hr (hcond.1.trans hid.symm)
  rw [← hid] at hsigner
  have hnot : ((Write.handedOff group now).onRecipient q).status ≠ .pending :=
    handedOff_not_pending (Or.inr ⟨_, hsigner⟩)
  have hrole : q.role = .signer :=
    hw.links q.id invite.token (mem_links_handedOff.mpr hsigner) q hq rfl
  obtain ⟨token, hsigner', hhash⟩ := link_of_handedOff hw hq hrole hcond.2 hnot
  exact ⟨hnot, by rw [hhash, hout.unique q.id _ _ hsigner' hsigner]⟩

/-! ## Steps that queue a job -/

/-- How a step of a process that signs touches the queue. -/
inductive Queues (w : World) : Proc → World → Proc → Prop
  | commit (write : Write) (k : Kont) :
      Queues w (.writing write k) (w.commit write k) (k.after write w.db)
  | invite (documentName : JsString) (invite : PendingInvite) (wrote : Bool)
      (rest : List (PendingInvite × Bool)) :
      Queues w (.inviting documentName ((invite, wrote) :: rest)) (w.enqueue (invite.job documentName))
        (.inviting documentName rest)
  | completion : Queues w .completing (w.enqueue ⟨.complete, .complete⟩) (.done .ok)
  | first (job : Job) (rest : List Job) : Queues w (.sending (job :: rest)) (w.enqueue job) (.sending rest)
  | quiet (l : Proc) (w' : World) (l' : Proc) (hqueue : w'.queue = w.queue) (hdb : w'.db = w.db)
      (hwriting : ∀ write k, l ≠ .writing write k)
      (hfrom : ∀ documentName invites, l = .inviting documentName invites → invites = [])
      (hinviting : ∀ documentName invites, l' ≠ .inviting documentName invites)
      (hsending : ∀ jobs, l' ≠ .sending jobs) : Queues w l w' l'

theorem Next.queues {cfg : Config} {w w' : World} {l l' : Proc} (h : Next cfg w l w' l')
    (hl : l.signing = true) : Queues w l w' l' := by
  cases h with
  | commit write k => exact Queues.commit write k
  | invite documentName invite rest => exact Queues.invite documentName invite.1 invite.2 rest
  | enqueueCompletion => exact Queues.completion
  | enqueueFirst job rest => exact Queues.first job rest
  | stop l a hend =>
      refine Queues.quiet l w _ rfl rfl ?_ ?_ (by simp) (by simp)
      · rintro write k rfl
        exact hend
      · rintro documentName invites rfl
        exact hend
  | notify job rest => cases hl
  | mailExpired mail => cases hl
  | mailReminder mail rest total => cases hl
  | _ => exact Queues.quiet _ _ _ rfl rfl (by simp) (by simp) (by simp) (by simp)

theorem Kont.of_after_inviting {k : Kont} {w : Write} {db : Db} {documentName : JsString}
    {invites : List (PendingInvite × Bool)} (h : k.after w db = .inviting documentName invites) :
    ∃ prepared, k = .handedOff documentName prepared ∧
      invites = prepared.map fun i => (i, storesInvite db i) := by
  have hfollows := k.follows_after w db
  rw [h] at hfollows
  cases hfollows with
  | inviting _ prepared => exact ⟨prepared, rfl, rfl⟩

theorem Kont.after_ne_sending (k : Kont) (w : Write) (db : Db) (jobs : List Job) :
    k.after w db ≠ .sending jobs := by
  have hfollows := k.follows_after w db
  generalize k.after w db = l at hfollows ⊢
  cases hfollows <;> simp

/-- A transaction that goes on to invitations is a hand-off with the invitations it has prepared. -/
theorem Prepares.handsOut {cfg : Config} {w : World} {l : Proc} {write : Write}
    {documentName : JsString} {prepared : List PendingInvite} {minted : Nat}
    (hids : (w.db.recipients.map Recipient.id).Nodup)
    (h : Prepares cfg w l write (.handedOff documentName prepared) minted) :
    ∃ group now, write = .handedOff group now ∧ HandsOut group prepared := by
  cases h with
  | handedOff documentName now members hmembers =>
      obtain ⟨order, -, rfl⟩ := handsOff_of_advance hmembers
      exact ⟨_, _, rfl, handsOut_mintGroup hids order w.minted⟩

/-! ## No invitation misses its link -/

/-- What is known where a step is taken. -/
structure InviteStep (turns : List (RecipientRole × Nat)) (first : Nat) (s : System World Proc)
    (l : Label Choice Event) : Prop where
  once : invitesOnce s l = true
  roles : Holds (fun w : World => Roles w.db) (fun w _ l => ProcRoles w l) (fun _ _ => True) s
  groups : Holds (fun w : World => Groups turns first w.db) (fun w _ l => ProcGroups w.db l)
    (fun _ _ => True) s

/-- Whatever invitation the queue ever took has the token of its row's link. -/
structure QueueSettled (w : World) : Prop where
  present : ∀ job ∈ w.queue.present, job ∈ w.queue.accepted
  accepted : ∀ job ∈ w.queue.accepted, ∀ id, job.id = .invite id →
    ∃ token, job.Invites id token ∧ Settled w.db id token

structure ProcInvites (w : World) (l : Proc) : Prop where
  sending : ∀ jobs, l = .sending jobs → ∀ job ∈ jobs, ∀ id, job.id ≠ .invite id
  inviting : ∀ documentName invites, l = .inviting documentName invites → ∀ invite,
    (invite, true) ∈ invites → Settled w.db invite.id invite.token
  prepared : ∀ write documentName prepared, l.pending = some (write, .handedOff documentName prepared) →
    ∃ group now, write = .handedOff group now ∧ HandsOut group prepared
  handsOff : ∀ group now k, l.pending = some (.handedOff group now, k) →
    ∃ documentName prepared, k = .handedOff documentName prepared

theorem Queue.add_of_present {q : Queue} {job : Job} (h : (q.present.any fun j => j.id == job.id) = true) :
    q.add job = q := by
  simp [Queue.add, h]

theorem QueueSettled.enqueue {w : World} {job : Job} (h : QueueSettled w)
    (hjob : (w.queue.present.any fun j => j.id == job.id) = true ∨
      ∀ id, job.id = .invite id → ∃ token, job.Invites id token ∧ Settled w.db id token) :
    QueueSettled (w.enqueue job) := by
  by_cases hpresent : (w.queue.present.any fun j => j.id == job.id) = true
  · have hsame : w.enqueue job = w := by
      simp only [World.enqueue, Queue.add_of_present hpresent]
    rw [hsame]
    exact h
  · have hnew := hjob.resolve_left hpresent
    have hadd : w.queue.add job = ⟨job :: w.queue.present, job :: w.queue.accepted⟩ := by
      simp [Queue.add, hpresent]
    constructor
    · intro j hj
      simp only [World.enqueue, hadd, List.mem_cons] at hj ⊢
      exact hj.imp id (h.present j)
    · intro j hj id hid
      simp only [World.enqueue, hadd, List.mem_cons] at hj
      rcases hj with rfl | hj
      · exact hnew id hid
      · exact h.accepted j hj id hid

theorem QueueSettled.commit {w : World} (h : QueueSettled w) {write : Write}
    (hw : write.signing = true) (k : Kont) : QueueSettled (w.commit write k) where
  present := h.present
  accepted job hjob id hid := by
    obtain ⟨token, hinvites, hsettled⟩ := h.accepted job hjob id hid
    exact ⟨token, hinvites, hsettled.write hw⟩

theorem QueueSettled.of_eq {w w' : World} (h : QueueSettled w) (hqueue : w'.queue = w.queue)
    (hdb : w'.db = w.db) : QueueSettled w' where
  present := by
    rw [hqueue]
    exact h.present
  accepted := by
    rw [hqueue, hdb]
    exact h.accepted

theorem ProcInvites.commit {w : World} {l : Proc} (h : ProcInvites w l) {write : Write}
    (hw : write.signing = true) (k : Kont) : ProcInvites (w.commit write k) l where
  sending := h.sending
  inviting documentName invites hl invite hinvite := (h.inviting documentName invites hl invite hinvite).write hw
  prepared := h.prepared
  handsOff := h.handsOff

theorem ProcInvites.of_db {w w' : World} {l : Proc} (h : ProcInvites w l) (hdb : w'.db = w.db) :
    ProcInvites w' l where
  sending := h.sending
  inviting := by
    rw [hdb]
    exact h.inviting
  prepared := h.prepared
  handsOff := h.handsOff

/-- The process whose hand-off commits may queue the invitations it stored the links of. -/
theorem ProcInvites.after {w : World} {write : Write} {k : Kont} (hroles : Roles w.db)
    (hw : WriteRoles w.db write) (h : ProcInvites w (.writing write k)) :
    ProcInvites (w.commit write k) (k.after write w.db) where
  sending jobs hl := absurd hl (k.after_ne_sending write w.db jobs)
  inviting documentName invites hl invite hinvite := by
    obtain ⟨prepared, rfl, rfl⟩ := Kont.of_after_inviting hl
    obtain ⟨group, now, rfl, hout⟩ := h.prepared write documentName prepared rfl
    obtain ⟨i, hi, heq⟩ := List.mem_map.mp hinvite
    obtain ⟨rfl, hstores⟩ := Prod.mk.inj heq
    exact settled_of_handedOff hroles hw hout hi hstores
  prepared write' documentName prepared hl := by
    rw [Kont.pending_after] at hl
    cases hl
  handsOff group now k' hl := by
    rw [Kont.pending_after] at hl
    cases hl

/-- What a step makes ready for commit is the hand-off its invitations belong to. -/
structure ReadyInvites (l : Proc) : Prop where
  prepared : ∀ write documentName prepared, l.pending = some (write, .handedOff documentName prepared) →
    ∃ group now, write = .handedOff group now ∧ HandsOut group prepared
  handsOff : ∀ group now k, l.pending = some (.handedOff group now, k) →
    ∃ documentName prepared, k = .handedOff documentName prepared

theorem Readies.invites {cfg : Config} {w w' : World} {l l' : Proc}
    (hids : (w.db.recipients.map Recipient.id).Nodup) (h : Readies cfg w l w' l') : ReadyInvites l' where
  prepared write documentName prepared hl := (h.pending _ _ hl).handsOut hids
  handsOff group now k hl := by
    obtain ⟨documentName, members, -, -, -, hk⟩ := (h.pending _ _ hl).of_handedOff
    exact ⟨documentName, _, hk⟩

/-- A step keeps every invitation in order, the mover's and the others', when an invitation of a row the
hand-off did not write finds a job with its id in the queue. -/
theorem Queues.settled {w w' : World} {l l' : Proc} (h : Queues w l w' l') (hroles : Roles w.db)
    (hwrites : ∀ write k, l.pending = some (write, k) → WriteRoles w.db write) (hsigning : l.signing = true)
    (hready : (∀ write k, l ≠ .writing write k) → ReadyInvites l')
    (hdropped : ∀ documentName invite rest, l = .inviting documentName ((invite, false) :: rest) →
      (w.queue.present.any fun job => job.id == .invite invite.id) = true)
    (hshared : QueueSettled w) (hown : ProcInvites w l) :
    QueueSettled w' ∧ ProcInvites w' l' ∧ ∀ l₀, ProcInvites w l₀ → ProcInvites w' l₀ := by
  cases h with
  | commit write k =>
      have hws : write.signing = true := (Bool.and_eq_true_iff.mp hsigning).1
      exact ⟨hshared.commit hws k, hown.after hroles (hwrites write k rfl), fun _ h => h.commit hws k⟩
  | invite documentName invite wrote rest =>
      obtain ⟨hprepared, hhandsOff⟩ := hready (by simp)
      refine ⟨hshared.enqueue ?_, ⟨by simp, ?_, hprepared, hhandsOff⟩, fun _ h => h.of_db rfl⟩
      · cases wrote with
        | false => exact Or.inl (hdropped _ _ _ rfl)
        | true =>
            -- The row was written with this very token.
            refine Or.inr fun id hid => ?_
            obtain rfl := JobId.invite.inj hid
            exact ⟨invite.token, ⟨rfl, _, rfl, rfl⟩, hown.inviting _ _ rfl invite List.mem_cons_self⟩
      · intro documentName' invites hl invite' hinvite
        obtain ⟨rfl, rfl⟩ := Proc.inviting.inj hl
        exact hown.inviting _ _ rfl invite' (List.mem_cons_of_mem _ hinvite)
  | completion =>
      obtain ⟨hprepared, hhandsOff⟩ := hready (by simp)
      exact ⟨hshared.enqueue (Or.inr (by simp)), ⟨by simp, by simp, hprepared, hhandsOff⟩,
        fun _ h => h.of_db rfl⟩
  | first job rest =>
      obtain ⟨hprepared, hhandsOff⟩ := hready (by simp)
      refine ⟨hshared.enqueue (Or.inr fun id hid => ?_), ⟨?_, by simp, hprepared, hhandsOff⟩,
        fun _ h => h.of_db rfl⟩
      · exact absurd hid (hown.sending _ rfl job List.mem_cons_self id)
      · intro jobs hl job' hjob'
        obtain rfl := Proc.sending.inj hl
        exact hown.sending _ rfl job' (List.mem_cons_of_mem _ hjob')
  | quiet _ _ _ hqueue hdb hwriting hfrom hinviting hsending =>
      obtain ⟨hprepared, hhandsOff⟩ := hready hwriting
      exact ⟨hshared.of_eq hqueue hdb,
        ⟨fun jobs hl => absurd hl (hsending jobs),
          fun documentName invites hl => absurd hl (hinviting documentName invites), hprepared, hhandsOff⟩,
        fun _ h => h.of_db hdb⟩

theorem tokensOutline (cfg : Config) (turns : List (RecipientRole × Nat)) (first : Nat) :
    ProofOutline (service cfg) (InviteStep turns first) QueueSettled (fun w _ l => ProcInvites w l)
      (fun _ _ => True) where
  act := by
    intro s p c sh l hs hok hact
    have hsigning := (hok.groups.proc p).signing
    obtain ⟨hstep, hdropped⟩ := Bool.and_eq_true_iff.mp hok.once
    rcases act_cases (p := p) hact with
      ⟨call, rfl, -, rfl, rfl⟩ | ⟨rfl, hnext⟩ | ⟨taken, rfl, -⟩ | ⟨rfl, -, -, -⟩
    · refine ⟨hs.shared, ?_, fun q _ => hs.proc q, fun _ _ => ⟨trivial, trivial⟩⟩
      cases call <;> exact ⟨by simp [Call.begin], by simp [Call.begin], by simp [Call.begin, Proc.pending],
        by simp [Call.begin, Proc.pending]⟩
    · obtain ⟨hshared, hown, hothers⟩ := (hnext.queues hsigning).settled hok.roles.shared
        (hok.roles.proc p).pending hsigning (fun hl => (hnext.readies hl).invites hok.roles.shared.ids)
        (fun _ _ _ hl => by simpa only [hl] using hdropped) hs.shared (hs.proc p)
      exact ⟨hshared, hown, fun q _ => hothers _ (hs.proc q), fun _ _ => ⟨trivial, trivial⟩⟩
    · cases hstep
    · cases hstep
  env := by
    intro s e sh hs _ henv
    have hdb := (env_spec henv).db
    refine ⟨?_, fun q => (hs.proc q).of_db hdb⟩
    cases e with
    | clock now =>
        obtain rfl := Option.some.inj henv
        exact hs.shared.of_eq rfl rfl
    | processed id =>
        -- A job leaves the queue, not the record of what the queue took.
        obtain rfl := Option.some.inj henv
        exact ⟨fun job hjob => hs.shared.present job (List.mem_of_mem_filter hjob), hs.shared.accepted⟩

/-! ## Nobody is left without an invitation -/

/-- The queue took an invitation for the recipient at some time. -/
def Queued (w : World) (id : Nat) : Prop := ∃ job ∈ w.queue.accepted, job.id = .invite id

/-- The process has still to queue an invitation whose link it stored. -/
def Owes (l : Proc) (id : Nat) : Prop :=
  ∃ documentName invites invite, l = .inviting documentName invites ∧ (invite, true) ∈ invites ∧
    invite.id = id

/-- Every signer a hand-off has reached is invited, or some process is about to. -/
def Reached (first : Nat) (s : System World Proc) : Prop :=
  ∀ r ∈ s.shared.db.recipients, r.role = .signer → r.status ≠ .pending → first < r.routingOrder →
    Queued s.shared r.id ∨ ∃ p, Owes (s.procs p) r.id

theorem Queued.enqueue {w : World} {id : Nat} (h : Queued w id) (job : Job) :
    Queued (w.enqueue job) id := by
  obtain ⟨j, hj, hid⟩ := h
  refine ⟨j, ?_, hid⟩
  show j ∈ (w.queue.add job).accepted
  rcases w.queue.accepted_add job with hsame | hadd
  · rwa [hsame]
  · rw [hadd]
    exact List.mem_cons_of_mem _ hj

/-- Once an invitation was offered to the queue, it has taken one with that id. -/
theorem queued_enqueue {w : World} (h : QueueSettled w) {job : Job} {id : Nat}
    (hid : job.id = .invite id) : Queued (w.enqueue job) id := by
  by_cases hpresent : (w.queue.present.any fun j => j.id == job.id) = true
  · obtain ⟨j, hj, heq⟩ := List.any_eq_true.mp hpresent
    exact Queued.enqueue ⟨j, h.present j hj, (eq_of_beq heq).trans hid⟩ job
  · refine ⟨job, ?_, hid⟩
    show job ∈ (w.queue.add job).accepted
    simp [Queue.add, hpresent]

/-- A signer whose turn comes with a commit is owed an invitation by the process that commits. -/
theorem owes_of_reached {w : World} {write : Write} {k : Kont} (hroles : WriteRoles w.db write)
    (hws : write.signing = true) (hown : ProcInvites w (.writing write k)) {r : Recipient}
    (hr : r ∈ w.db.recipients) (hrole : r.role = .signer) (hpending : r.status = .pending)
    (h : (write.onRecipient r).status ≠ .pending) : Owes (k.after write w.db) r.id := by
  obtain ⟨group, now, rfl, hfor⟩ := reached_of_onRecipient hws hpending h
  obtain ⟨documentName, prepared, rfl⟩ := hown.handsOff group now k rfl
  obtain ⟨_, _, hw, hout⟩ := hown.prepared _ documentName prepared rfl
  obtain ⟨rfl, rfl⟩ := Write.handedOff.inj hw
  rcases hfor with hcc | ⟨token, hsigner⟩
  · rw [hroles.activates r.id (mem_activates_handedOff.mpr hcc) r hr rfl] at hrole
    cases hrole
  · obtain ⟨invite, hinvite, hid⟩ := hout.invite r.id token hsigner
    refine ⟨documentName, _, invite, rfl, List.mem_map.mpr ⟨invite, hinvite, ?_⟩, hid⟩
    have hstores : storesInvite w.db invite = true :=
      List.any_eq_true.mpr ⟨r, hr, by simp [hid, hpending]⟩
    rw [hstores]

/-- When a process moves, an invitation still owed by another stays owed. -/
theorem owed_move {s : System World Proc} {p id : Nat} {sh : World} {l' : Proc}
    (h : Queued s.shared id ∨ ∃ q, Owes (s.procs q) id) (hqueued : Queued s.shared id → Queued sh id)
    (hp : Owes (s.procs p) id → Queued sh id ∨ Owes l' id) :
    Queued sh id ∨ ∃ q, Owes (Function.update s.procs p l' q) id := by
  rcases h with hq | ⟨q, howes⟩
  · exact Or.inl (hqueued hq)
  · by_cases hqp : q = p
    · subst hqp
      rcases hp howes with hq | howes'
      · exact Or.inl hq
      · exact Or.inr ⟨q, by simpa using howes'⟩
    · exact Or.inr ⟨q, by simpa [hqp] using howes⟩

/-- Where process `p` takes the step, everybody reached stays invited or owed an invitation. -/
theorem Queues.reached {first : Nat} {s : System World Proc} {p : Nat} {sh : World} {l l' : Proc}
    (h : Queues s.shared l sh l') (hl : s.procs p = l) (hreached : Reached first s)
    (hwrites : ∀ write k, l.pending = some (write, k) → WriteRoles s.shared.db write)
    (hsigning : l.signing = true) (hqueue : QueueSettled s.shared) (hown : ProcInvites s.shared l) :
    Reached first ⟨sh, Function.update s.procs p l'⟩ := by
  have hmove : ∀ r ∈ s.shared.db.recipients, r.role = .signer → r.status ≠ .pending →
      first < r.routingOrder → (Queued s.shared r.id → Queued sh r.id) →
      (Owes l r.id → Queued sh r.id ∨ Owes l' r.id) →
      Queued sh r.id ∨ ∃ q, Owes (Function.update s.procs p l' q) r.id := by
    rw [← hl]
    exact fun r hr hrole hnot hlt => owed_move (hreached r hr hrole hnot hlt)
  cases h with
  | commit write k =>
      intro r' hr' hrole hnot hlt
      obtain ⟨r, hr, rfl⟩ := exists_of_mem_write hr'
      rw [onRecipient_role] at hrole
      rw [onRecipient_routingOrder] at hlt
      rw [onRecipient_id]
      by_cases hpending : r.status = .pending
      · -- The commit itself reaches this signer.
        have howes := owes_of_reached (hwrites write k rfl) (Bool.and_eq_true_iff.mp hsigning).1 hown
          hr hrole hpending hnot
        exact Or.inr ⟨p, by simpa using howes⟩
      · refine hmove r hr hrole hpending hlt (fun hq => hq) ?_
        rintro ⟨documentName, invites, invite, heq, -⟩
        cases heq
  | invite documentName invite wrote rest =>
      intro r hr hrole hnot hlt
      refine hmove r hr hrole hnot hlt (fun hq => hq.enqueue _) ?_
      rintro ⟨documentName', invites, i, heq, hi, hid⟩
      obtain ⟨rfl, rfl⟩ := Proc.inviting.inj heq
      rcases List.mem_cons.mp hi with hfirst | hrest
      · obtain ⟨rfl, rfl⟩ := Prod.mk.inj hfirst
        exact Or.inl (queued_enqueue hqueue (by rw [← hid]; rfl))
      · exact Or.inr ⟨_, rest, i, rfl, hrest, hid⟩
  | completion =>
      intro r hr hrole hnot hlt
      refine hmove r hr hrole hnot hlt (fun hq => hq.enqueue _) ?_
      rintro ⟨documentName, invites, invite, heq, -⟩
      cases heq
  | first job rest =>
      intro r hr hrole hnot hlt
      refine hmove r hr hrole hnot hlt (fun hq => hq.enqueue _) ?_
      rintro ⟨documentName, invites, invite, heq, -⟩
      cases heq
  | quiet _ _ _ hsame hdb hwriting hfrom hinviting hsending =>
      intro r hr hrole hnot hlt
      simp only [hdb] at hr
      refine hmove r hr hrole hnot hlt (fun hq => ?_) ?_
      · unfold Queued
        rw [hsame]
        exact hq
      · rintro ⟨documentName, invites, invite, heq, hmem, -⟩
        rw [hfrom documentName invites heq] at hmem
        cases hmem

theorem reached_step {cfg : Config} {turns : List (RecipientRole × Nat)} {first : Nat}
    {s s' : System World Proc} {l : Label Choice Event} (h : Reached first s)
    (hok : InviteStep turns first s l)
    (htokens : Holds QueueSettled (fun w _ l => ProcInvites w l) (fun _ _ => True) s)
    (hstep : (service cfg).step s l = some s') : Reached first s' := by
  cases l with
  | env e =>
      obtain ⟨sh, henv, rfl⟩ := Program.step_env hstep
      cases e <;> obtain rfl := Option.some.inj henv <;> exact h
  | proc p c =>
      obtain ⟨sh, l', hact, rfl⟩ := Program.step_proc hstep
      have hsteps := (Bool.and_eq_true_iff.mp hok.once).1
      have hsigning := (hok.groups.proc p).signing
      rcases act_cases (p := p) hact with
        ⟨call, rfl, hrest, rfl, rfl⟩ | ⟨rfl, hnext⟩ | ⟨taken, rfl, -⟩ | ⟨rfl, -, -, -⟩
      · -- Whoever owes an invitation is not at rest.
        intro r hr hrole hnot hlt
        refine owed_move (h r hr hrole hnot hlt) (fun hq => hq) ?_
        rintro ⟨documentName, invites, invite, hl, -⟩
        rw [hl] at hrest
        cases hrest
      · exact (hnext.queues hsigning).reached rfl h (hok.roles.proc p).pending hsigning htokens.shared
          (htokens.proc p)
      · cases hsteps
      · cases hsteps

/-! ## Nobody waits whose turn has come -/

/-- The process is about to reach everybody of this order. -/
def Covers (db : Db) (order : Nat) : Proc → Prop
  | .advancing _ _ => True
  | .writing (.handedOff group _) _ =>
      ∀ r ∈ db.recipients, r.status = .pending → r.routingOrder = order → HandOffFor group r.id
  | _ => False

theorem Covers.submitting {db : Db} {order : Nat} {l : Proc} (h : Covers db order l) :
    l.submitting = true := by
  cases l with
  | advancing documentName now => rfl
  | writing write k =>
      cases write with
      | handedOff group now => rfl
      | _ => exact h.elim
  | _ => exact h.elim

theorem Proc.submitting_of_atRest {l : Proc} (h : l.atRest = true) : l.submitting = false := by
  cases l <;> first | rfl | cases h

/-- When the next group's turn has come, some process is about to hand off to it. -/
def Attending (turns : List (RecipientRole × Nat)) (s : System World Proc) : Prop :=
  ∀ g n, Consecutive turns g n → HandsOff s.shared.db n → ∃ p, Covers s.shared.db n (s.procs p)

/-- Once a group has signed, whoever waits waits for a later one. -/
theorem Groups.waiting_after {turns : List (RecipientRole × Nat)} {first g n : Nat} {db : Db}
    (h : Groups turns first db) (hcc : ¬ CcBlocks turns first) (hc : Consecutive turns g n)
    (hdone : ∀ r ∈ db.recipients, r.role = .signer → r.routingOrder = g → r.status = .completed) :
    ∀ q ∈ db.recipients, q.status = .pending → n ≤ q.routingOrder := by
  intro q hq hpending
  rcases hc.between _ (h.turn_mem hq) with hle | hge
  · exfalso
    obtain ⟨r, hr, hrole, horder⟩ := h.exists_of_turn hc.signer
    have hnot : r.status ≠ .pending := by
      rw [hdone r hr hrole horder]
      simp
    have hfirst : first ≤ r.routingOrder := h.least r hr
    simp only at hle
    by_cases hg : first < r.routingOrder
    · exact h.reached r hr hnot hg q hq (by omega) hpending
    · -- The group that has signed is the first one, so nobody there waits to sign.
      have hqfirst : q.routingOrder = first := by
        have := h.least q hq
        omega
      cases hqrole : q.role with
      | signer => exact h.invited q hq hqrole hqfirst hpending
      | cc =>
          refine hcc ⟨?_, n, ?_⟩
          · have := h.turn_mem hq
            rwa [hqrole, hqfirst] at this
          · have hgfirst : g = first := by omega
            rwa [← hgfirst]
  · exact hge

/-- Only a claim can bring a group's turn about. -/
theorem HandsOff.of_not_claimed {turns : List (RecipientRole × Nat)} {first g n : Nat} {db : Db}
    {w : Write} (hgroups : Groups turns first db) (hcc : ¬ CcBlocks turns first)
    (hc : Consecutive turns g n) (hroles : WriteRoles db w) (hw : w.signing = true)
    (hclaim : ∀ r ∈ db.recipients, (w.onRecipient r).status = .completed → r.status = .completed)
    (h : HandsOff (db.write w) n) : HandsOff db n := by
  refine h.of_write hw hroles hclaim (hgroups.waiting_after hcc hc fun r hr hrole horder => ?_)
  refine hclaim r hr (h.earlier _ (mem_write (ne_deleted_of_signing hw) hr) ?_ ?_)
  · rw [onRecipient_role, hrole]
  · rw [onRecipient_routingOrder, horder]
    exact hc.lt

theorem Covers.write {db : Db} {order : Nat} {l : Proc} (h : Covers db order l) (w : Write) :
    Covers (db.write w) order l := by
  cases l with
  | advancing documentName now => trivial
  | writing write k =>
      cases write with
      | handedOff group now =>
          intro r' hr' hpending horder
          obtain ⟨r, hr, rfl⟩ := exists_of_mem_write hr'
          rw [onRecipient_routingOrder] at horder
          rw [onRecipient_id]
          exact h r hr (onRecipient_pending hpending) horder
      | _ => exact h.elim
  | _ => exact h.elim

/-- A hand-off to everybody waiting at this order leaves nobody of it waiting. -/
theorem Covers.committed {db : Db} {order : Nat} {write : Write} {k : Kont}
    (h : Covers db order (.writing write k)) : ¬ HandsOff (db.write write) order := by
  intro hands
  obtain ⟨r', hr', hpending, horder⟩ := hands.pending
  obtain ⟨r, hr, rfl⟩ := exists_of_mem_write hr'
  rw [onRecipient_routingOrder] at horder
  cases write with
  | handedOff group now =>
      exact handedOff_not_pending (h r hr (onRecipient_pending hpending) horder) hpending
  | _ => exact h.elim

/-- While it is a group's turn, a process that covers it goes on to cover it. -/
theorem Covers.next {cfg : Config} {w w' : World} {l l' : Proc} {order : Nat}
    (h : Covers w.db order l) (hands : HandsOff w.db order) (hnext : Next cfg w l w' l')
    (hl : ∀ write k, l ≠ .writing write k) : Covers w.db order l' := by
  cases l with
  | advancing documentName now =>
      have hadvance := hands.advance
      cases hnext with
      | stop _ a hend =>
          rw [show advanceEnvelope w.db = .nothing from hend] at hadvance
          cases hadvance
      | complete _ _ hcomplete =>
          rw [hcomplete] at hadvance
          cases hadvance
      | handOff _ _ group hgroup =>
          rw [hgroup] at hadvance
          obtain rfl := Decision.handOff.inj hadvance
          exact fun r hr hpending horder => handOffFor_handOffs.mpr
            ⟨r, mem_pendingGroup.mpr ⟨hr, hpending, horder⟩, rfl⟩
  | writing write k => exact absurd rfl (hl write k)
  | _ => exact h.elim

/-- Who covers a turn after the move of process `p`: another that does, or `p` itself. -/
theorem covers_move {s : System World Proc} {p q n : Nat} {sh : World} {l' : Proc}
    (h : if q = p then Covers sh.db n l' else Covers sh.db n (s.procs q)) :
    ∃ r, Covers sh.db n (Function.update s.procs p l' r) := by
  refine ⟨q, ?_⟩
  split at h
  · rename_i hqp
    simpa [hqp] using h
  · rename_i hqp
    simpa [hqp] using h

theorem attending_commit {turns : List (RecipientRole × Nat)} {first p : Nat} {write : Write} {k : Kont}
    {s : System World Proc} (hcc : ¬ CcBlocks turns first) (h : Attending turns s)
    (hgroups : Groups turns first s.shared.db) (hids : (s.shared.db.recipients.map Recipient.id).Nodup)
    (hroles : ProcRoles s.shared (s.procs p)) (hl : s.procs p = .writing write k)
    (hws : write.signing = true) :
    Attending turns ⟨s.shared.commit write k, Function.update s.procs p (k.after write s.shared.db)⟩ := by
  have hpending : (s.procs p).pending = some (write, k) := by
    rw [hl]
    rfl
  intro g n hc hands
  by_cases hclaim : ∃ r ∈ s.shared.db.recipients, (write.onRecipient r).status = .completed ∧
      r.status ≠ .completed
  · -- The claim's own process goes on to look whose turn it is.
    obtain ⟨r, hr, hcompleted, hold⟩ := hclaim
    obtain ⟨hash, data, rfl, hhash, hopen⟩ := (onRecipient_completed hcompleted).resolve_left hold
    obtain ⟨token, documentName, now, rfl⟩ := hroles.claim r.id hash data k hpending
    refine covers_move (q := p) ?_
    simp [Kont.after, count_claimed hids hr hhash hopen data, Covers]
  · -- It was this group's turn before, and the process that covers it is not the one that commits:
    -- a hand-off that commits ends the turn.
    have hbefore : HandsOff s.shared.db n :=
      hands.of_not_claimed hgroups hcc hc (hroles.pending write k hpending) hws
        fun r hr hcompleted => by
          by_contra hold
          exact hclaim ⟨r, hr, hcompleted, hold⟩
    obtain ⟨q, hq⟩ := h g n hc hbefore
    refine covers_move (q := q) ?_
    split
    · rename_i hqp
      subst hqp
      rw [hl] at hq
      exact absurd hands hq.committed
    · exact hq.write write

theorem attending_step {cfg : Config} {turns : List (RecipientRole × Nat)} {first : Nat}
    (hcc : ¬ CcBlocks turns first) {s s' : System World Proc} {l : Label Choice Event}
    (h : Attending turns s) (hok : InviteStep turns first s l)
    (hstep : (service cfg).step s l = some s') : Attending turns s' := by
  cases l with
  | env e =>
      obtain ⟨sh, henv, rfl⟩ := Program.step_env hstep
      intro g n hc hands
      simp only [(env_spec henv).db] at hands ⊢
      exact h g n hc hands
  | proc p c =>
      obtain ⟨sh, l', hact, rfl⟩ := Program.step_proc hstep
      have hsteps := (Bool.and_eq_true_iff.mp hok.once).1
      rcases act_cases (p := p) hact with
        ⟨call, rfl, hrest, rfl, rfl⟩ | ⟨rfl, hnext⟩ | ⟨taken, rfl, -⟩ | ⟨rfl, -, -, -⟩
      · intro g n hc hands
        obtain ⟨q, hq⟩ := h g n hc hands
        refine covers_move (q := q) ?_
        split
        · -- Whoever covers a turn is not at rest.
          rename_i hqp
          subst hqp
          have hsubmitting := hq.submitting
          rw [Proc.submitting_of_atRest hrest] at hsubmitting
          cases hsubmitting
        · exact hq
      · by_cases hl : ∀ write k, s.procs p ≠ .writing write k
        · intro g n hc hands
          have hdb := (hnext.readies hl).same.db
          simp only [hdb] at hands
          obtain ⟨q, hq⟩ := h g n hc hands
          refine covers_move (q := q) ?_
          rw [hdb]
          split
          · rename_i hqp
            subst hqp
            exact hq.next hands hnext hl
          · exact hq
        · simp only [ne_eq, not_forall, not_not] at hl
          obtain ⟨write, k, hl⟩ := hl
          have hsigning := (hok.groups.proc p).signing
          rw [hl] at hnext hsigning
          cases hnext with
          | stop _ a hend => exact hend.elim
          | commit _ _ =>
              exact attending_commit hcc h hok.groups.shared hok.roles.shared.ids (hok.roles.proc p) hl
                (Bool.and_eq_true_iff.mp hsigning).1
      · cases hsteps
      · cases hsteps

/-- Where a group has signed and the next one waits, it is the next one's turn. -/
theorem Groups.handsOff {turns : List (RecipientRole × Nat)} {first g n : Nat} {db : Db}
    (h : Groups turns first db) (hcc : ¬ CcBlocks turns first) (hc : Consecutive turns g n)
    (hdone : ∀ r ∈ db.recipients, r.role = .signer → r.routingOrder ≤ g → r.status = .completed)
    {r : Recipient} (hr : r ∈ db.recipients) (hrole : r.role = .signer) (horder : r.routingOrder = n)
    (hpending : r.status = .pending) : HandsOff db n where
  request := h.request
  unfinished hsigned := by
    rw [hsigned r hr hrole] at hpending
    cases hpending
  pending := ⟨r, hr, hpending, horder⟩
  least := h.waiting_after hcc hc fun q hq hqrole hqorder => hdone q hq hqrole (le_of_eq hqorder)
  earlier q hq hqrole hlt := by
    refine hdone q hq hqrole ?_
    rcases hc.between _ (h.turn_mem hq) with hle | hge
    · exact hle
    · simp only at hge
      omega

/-! ## Every run -/

/-- The jobs of a send are not those of a hand-off. -/
theorem send_jobs {cfg : Config} {template : Option Template} {input : SendRequest}
    {senderName : Option JsString} {now : Int} {sending : Sending}
    (h : send cfg template input senderName now = .ok sending) :
    ∀ job ∈ sending.jobs, ∀ id, job.id ≠ .invite id := by
  intro job hjob id
  obtain ⟨t, r, -, token, -, rfl⟩ := exists_of_mem_jobs h hjob
  simp [firstInvite]

theorem tokensHolds_start {sending : Sending}
    (hjobs : ∀ job ∈ sending.jobs, ∀ id, job.id ≠ .invite id) (now : Int) :
    Holds QueueSettled (fun w _ l => ProcInvites w l) (fun _ _ => True) (start sending now) where
  shared := ⟨by simp [start], by simp [start]⟩
  proc p := by
    simp only [start]
    split
    · refine ⟨fun jobs hl => ?_, by simp, by simp [Proc.pending], by simp [Proc.pending]⟩
      obtain rfl := Proc.sending.inj hl
      exact hjobs
    · exact ⟨by simp, by simp, by simp [Proc.pending], by simp [Proc.pending]⟩
  pair _ _ _ := trivial

theorem reached_start {input : SendRequest} {s : Sending} (h : NewEnvelope input s.minted s.db)
    (hmode : input.routingMode = .sequential) (now : Int) :
    Reached (firstOrder input) (start s now) := by
  intro r hr _ hnot hlt
  have hni : ¬ Invited input r := by
    rw [invited_iff h hmode hr]
    omega
  exact absurd (h.waiting r hr hni).1 hnot

theorem attending_start {input : SendRequest} {s : Sending} (h : NewEnvelope input s.minted s.db)
    (now : Int) : Attending (input.recipients.map SendRecipient.turn) (start s now) := by
  intro g n hc hands
  have hsigner : (RecipientRole.signer, g) ∈ s.db.recipients.map Recipient.turn := by
    have hturns : s.db.recipients.map Recipient.turn = input.recipients.map SendRecipient.turn := h.turns
    rw [hturns]
    exact hc.signer
  obtain ⟨r, hr, heq⟩ := List.mem_map.mp hsigner
  obtain ⟨hrole, horder⟩ := Prod.mk.inj heq
  exact absurd (hands.earlier r hr hrole (by rw [horder]; exact hc.lt)) (h.not_completed hr)

/-- **Hand-off invitations** in the runs where every invitation of a loser is dropped: each one the
queue ever took has the token of its row's link; and once no submit is under way, a group whose turn
has come has an invitation for each of its signers. -/
theorem every_hand_off_invited {cfg : Config} {template : Option Template} {input : SendRequest}
    {senderName : Option JsString} {now : Int} {sending : Sending}
    (hinput : SendRequestSchema cfg.platform input = true) (hmode : input.routingMode = .sequential)
    (hcc : ¬ CcBlocks (input.recipients.map SendRecipient.turn) (firstOrder input))
    (hsend : send cfg template input senderName now = .ok sending) {s : System World Proc}
    (hs : Reaches (service cfg) (fun s l => invitesOnce s l = true) (start sending now) s) :
    (∀ job ∈ s.shared.queue.accepted, ∀ id, job.id = .invite id →
      ∃ token, job.Invites id token ∧
        ∀ r ∈ s.shared.db.recipients, r.id = id → r.signingTokenHash = some (.sha256 token)) ∧
    ((∀ p, (s.procs p).submitting = false) →
      ∀ g n, Consecutive (input.recipients.map SendRecipient.turn) g n →
        (∀ r ∈ s.shared.db.recipients, r.role = .signer → r.routingOrder ≤ g → r.status = .completed) →
        ∀ r ∈ s.shared.db.recipients, r.role = .signer → r.routingOrder = n →
          ∃ job ∈ s.shared.queue.accepted, ∃ token, job.Invites r.id token ∧
            r.signingTokenHash = some (.sha256 token)) := by
  have hnew := send_spec hinput hsend
  -- The invariants, each assumed in the argument for the next.
  have hroles := Reaches.strengthen (rolesOutline cfg _).holds_step hs (rolesHolds_start hnew now)
  have hgroupsStep := fun s l s' hI
      (hok : invitesOnce s l = true ∧ Holds (fun w : World => Roles w.db) (fun w _ l => ProcRoles w l)
        (fun _ _ => True) s) =>
    (groupsOutline cfg (input.recipients.map SendRecipient.turn) (firstOrder input)).holds_step s l s' hI
      ⟨(Bool.and_eq_true_iff.mp hok.1).1, hok.2⟩
  have hgroups := (Reaches.invariant hgroupsStep hroles (groupsHolds_start hnew hmode now)).shared
  have hrun := (Reaches.strengthen hgroupsStep hroles (groupsHolds_start hnew hmode now)).mono
    fun s l h => InviteStep.mk h.1.1 h.1.2 h.2
  have htokensStep := (tokensOutline cfg (input.recipients.map SendRecipient.turn)
    (firstOrder input)).holds_step
  have hstart := tokensHolds_start (send_jobs hsend) now
  have htokens := (Reaches.invariant htokensStep hrun hstart).shared
  have hreached := Reaches.invariant
    (fun _ _ _ h (hok : _ ∧ _) hstep => reached_step h hok.1 hok.2 hstep)
    (Reaches.strengthen htokensStep hrun hstart) (reached_start hnew hmode now)
  have hattending := Reaches.invariant (fun _ _ _ h hok hstep => attending_step hcc h hok hstep) hrun
    (attending_start hnew now)
  refine ⟨fun job hjob id hid => ?_, fun hquiet g n hc hdone r hr hrole horder => ?_⟩
  · obtain ⟨token, hinvites, hsettled⟩ := htokens.accepted job hjob id hid
    exact ⟨token, hinvites, fun r hr hrid => (hsettled r hr hrid).2⟩
  · have hnot : r.status ≠ .pending := by
      intro hpending
      obtain ⟨p, hp⟩ := hattending g n hc (hgroups.handsOff hcc hc hdone hr hrole horder hpending)
      have hover := hquiet p
      rw [hp.submitting] at hover
      cases hover
    have hlater : firstOrder input < r.routingOrder := by
      obtain ⟨q, hq, -, hqorder⟩ := hgroups.exists_of_turn hc.signer
      have h1 := hgroups.least q hq
      have h2 := hc.lt
      omega
    rcases hreached r hr hrole hnot hlater with ⟨job, hjob, hid⟩ | ⟨p, hp⟩
    · obtain ⟨token, hinvites, hsettled⟩ := htokens.accepted job hjob r.id hid
      exact ⟨job, hjob, token, hinvites, (hsettled r hr rfl).2⟩
    · obtain ⟨documentName, invites, invite, hl, -⟩ := hp
      have hover := hquiet p
      rw [hl] at hover
      cases hover

/-! ## Two runs -/

/-- Two people sign together, one after them. -/
def exampleHandOff : SendRequest :=
  exampleInput .sequential
    [exampleRecipient "a" .signer 1, exampleRecipient "b" .signer 1, exampleRecipient "c" .signer 2]

/-- Both submits of the first group decide to hand off; the third process wins. -/
def exampleRace : List (Label Choice Event) :=
  List.replicate 3 (.proc 0 .next) ++ exampleConsent 1 0 ++ exampleConsent 2 1 ++
    exampleClaim 3 0 ++ exampleClaim 4 1 ++
    [.proc 3 .next, .proc 4 .next, .proc 3 .next, .proc 4 .next]

/-- The winner queues first, and the loser's invitation is dropped. -/
theorem every_hand_off_invited_race :
    ∃ s, replayIf invitesOnce exampleConfig exampleTemplate exampleHandOff 0
        (exampleRace ++ [.proc 3 .next, .proc 3 .next, .proc 4 .next, .proc 4 .next]) = some s ∧
      ∃ r ∈ s.shared.db.recipients, r.role = .signer ∧ r.routingOrder = 2 ∧
        ∃ job ∈ s.shared.queue.accepted, ∃ token, job.Invites r.id token ∧
          r.signingTokenHash = some (.sha256 token) := by
  have hrun : (replayIf invitesOnce exampleConfig exampleTemplate exampleHandOff 0
      (exampleRace ++ [.proc 3 .next, .proc 3 .next, .proc 4 .next, .proc 4 .next])).map (fun s =>
        [s.shared.db.recipients.all fun r => r.routingOrder == 2 || r.status == .completed,
          s.shared.db.recipients.any fun r => r.role == .signer && r.routingOrder == 2,
          (List.range 5).all fun p => !(s.procs p).submitting]) =
      some [true, true, true] := by
    decide +kernel
  obtain ⟨s, hs, hfacts⟩ := Option.map_eq_some_iff.mp hrun
  simp only [List.cons.injEq, and_true] at hfacts
  obtain ⟨hcompleted, hnext, hprocs⟩ := hfacts
  obtain ⟨sending, hsend, hreaches⟩ := replayIf_spec hs
  have hquiet := forall_procs_of_replayIf (Q := fun l => !l.submitting) hs (by decide) (by decide) rfl
    hprocs
  obtain ⟨r, hr, hcond⟩ := List.any_eq_true.mp hnext
  simp only [Bool.and_eq_true, beq_iff_eq] at hcond
  have hturns : Consecutive (exampleHandOff.recipients.map SendRecipient.turn) 1 2 :=
    ⟨by decide, by decide, by decide, by decide⟩
  refine ⟨s, hs, r, hr, hcond.1, hcond.2, ?_⟩
  refine (every_hand_off_invited (by decide +kernel) rfl ?_ hsend hreaches).2
    (fun p => by simpa using hquiet p) 1 2 hturns ?_ r hr hcond.1 hcond.2
  · rintro ⟨hcc, -⟩
    exact absurd hcc (by decide)
  · intro q hq _ horder
    have hq' := List.all_eq_true.mp hcompleted q hq
    simp only [Bool.or_eq_true, beq_iff_eq] at hq'
    exact hq'.resolve_left (by omega)

/-- The invitations of hand-offs the queue took: for whom and with which token. -/
def invitations (q : Queue) : List (Nat × Nat) :=
  q.accepted.filterMap fun job =>
    match job.id, job.payload with
    | .invite id, .invite invite => some (id, invite.token)
    | _, _ => none

theorem mem_invitations {q : Queue} {id token : Nat} :
    (id, token) ∈ invitations q ↔ ∃ job ∈ q.accepted, job.Invites id token := by
  unfold invitations
  rw [List.mem_filterMap]
  constructor
  · rintro ⟨job, hjob, heq⟩
    refine ⟨job, hjob, ?_⟩
    split at heq
    · rename_i hid hpayload
      obtain ⟨rfl, rfl⟩ := Prod.mk.inj (Option.some.inj heq)
      exact ⟨hid, _, hpayload, rfl⟩
    · cases heq
  · rintro ⟨job, hjob, hid, invite, hpayload, rfl⟩
    exact ⟨job, hjob, by simp only [hid, hpayload]⟩

/-- The loser queues first: the queue takes its invitation, whose token is nobody's, and drops the
winner's. -/
theorem hand_off_invite_of_loser :
    ∃ s, replayIf (fun _ l => signingStep l) exampleConfig exampleTemplate exampleHandOff 0
        (exampleRace ++ [.proc 4 .next, .proc 4 .next, .proc 3 .next, .proc 3 .next]) = some s ∧
      (∀ p, (s.procs p).submitting = false) ∧
      (∀ r ∈ s.shared.db.recipients, r.role = .signer → r.routingOrder ≤ 1 → r.status = .completed) ∧
      ∃ r ∈ s.shared.db.recipients, r.role = .signer ∧ r.routingOrder = 2 ∧
        (∃ job ∈ s.shared.queue.accepted, ∃ token, job.Invites r.id token) ∧
        ∀ job ∈ s.shared.queue.accepted, ∀ token, job.Invites r.id token →
          r.signingTokenHash ≠ some (.sha256 token) := by
  have hrun : (replayIf (fun _ l => signingStep l) exampleConfig exampleTemplate exampleHandOff 0
      (exampleRace ++ [.proc 4 .next, .proc 4 .next, .proc 3 .next, .proc 3 .next])).map (fun s =>
        ([s.shared.db.recipients.all fun r => r.routingOrder == 2 || r.status == .completed,
          (List.range 5).all fun p => !(s.procs p).submitting],
          (s.shared.db.recipients.filter fun r => r.role == .signer && r.routingOrder == 2).map
            fun r => (r.id, r.signingTokenHash),
          invitations s.shared.queue)) =
      some ([true, true], [(2, some (.sha256 2))], [(2, 3)]) := by
    decide +kernel
  obtain ⟨s, hs, hfacts⟩ := Option.map_eq_some_iff.mp hrun
  simp only [Prod.mk.injEq, List.cons.injEq, and_true] at hfacts
  obtain ⟨⟨hcompleted, hprocs⟩, hnext, hinvitations⟩ := hfacts
  have hquiet := forall_procs_of_replayIf (Q := fun l => !l.submitting) hs (by decide) (by decide) rfl
    hprocs
  have hrow : (2, some (TokenHash.sha256 2)) ∈ (s.shared.db.recipients.filter fun r =>
      r.role == .signer && r.routingOrder == 2).map fun r => (r.id, r.signingTokenHash) := by
    rw [hnext]
    exact List.mem_singleton.mpr rfl
  obtain ⟨r, hr, heq⟩ := List.mem_map.mp hrow
  obtain ⟨hid, hhash⟩ := Prod.mk.inj heq
  obtain ⟨hmem, hcond⟩ := List.mem_filter.mp hr
  simp only [Bool.and_eq_true, beq_iff_eq] at hcond
  refine ⟨s, hs, fun p => by simpa using hquiet p, ?_, r, hmem, hcond.1, hcond.2, ?_, ?_⟩
  · intro q hq _ horder
    have hq' := List.all_eq_true.mp hcompleted q hq
    simp only [Bool.or_eq_true, beq_iff_eq] at hq'
    exact hq'.resolve_left (by omega)
  · obtain ⟨job, hjob, hinvites⟩ := mem_invitations.mp
      (show (2, 3) ∈ invitations s.shared.queue by simp [hinvitations])
    exact ⟨job, hjob, 3, by rwa [hid]⟩
  · intro job hjob token hinvites hsame
    have htoken := mem_invitations.mpr ⟨job, hjob, hinvites⟩
    rw [hinvitations, hid] at htoken
    obtain rfl := (Prod.mk.inj (List.mem_singleton.mp htoken)).2
    rw [hhash] at hsame
    cases hsame

end ESignSoft.Envelope
