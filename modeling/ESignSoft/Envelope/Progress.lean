import ESignSoft.Envelope.Groups
import ESignSoft.Envelope.Signatures

/-!
# Whether a sequential envelope always has somebody to sign

One submit after another, each with its hand-off, an envelope must not come to rest with nobody invited
while somebody has still to sign.  It does when a group of people who do not sign stands before
somebody who does: nobody of it will ever submit and so advance the envelope.  And it does when such a
person waits in the first group beside a single signer: the send leaves the waiting, and the only
submit of the group goes into activating them.

* `EverybodyReached` — the orders for which neither happens;
* `somebody_is_invited` — for them the envelope never comes to rest with nobody invited;
* `nobody_is_invited` — an envelope that does.
-/

namespace ESignSoft.Envelope

open ESignSoft.Lib.JsText ESignSoft.Lib.Table ESignSoft.Lib.Interleaving
open ESignSoft.Contracts ESignSoft.Signing

/-- Each group that comes before somebody to sign has somebody to sign, and the first one has two of
them when somebody waits in it who does not sign. -/
structure EverybodyReached (turns : List (RecipientRole × Nat)) (first : Nat) : Prop where
  signer : ∀ t ∈ turns, ∀ later ∈ turns, later.1 = .signer → t.2 < later.2 → (.signer, t.2) ∈ turns
  two : (.cc, first) ∈ turns → ∀ later ∈ turns, later.1 = .signer → first < later.2 →
    2 ≤ turns.count (.signer, first)

instance (turns : List (RecipientRole × Nat)) (first : Nat) : Decidable (EverybodyReached turns first) :=
  decidable_of_iff
    ((∀ t ∈ turns, ∀ later ∈ turns, later.1 = .signer → t.2 < later.2 → (.signer, t.2) ∈ turns) ∧
      ((.cc, first) ∈ turns → ∀ later ∈ turns, later.1 = .signer → first < later.2 →
        2 ≤ turns.count (.signer, first)))
    ⟨fun h => ⟨h.1, h.2⟩, fun h => ⟨h.signer, h.two⟩⟩

/-! ## An envelope at rest, and one that advances -/

/-- No group has its turn left to come, and a copy waits in the first group only until somebody has
signed. -/
structure Resting (first : Nat) (db : Db) : Prop where
  turn : ∀ n, first < n → ¬ HandsOff db n
  copy : ¬ AllSigned db.recipients → ∀ q ∈ db.recipients, q.status = .pending → q.routingOrder = first →
    ∀ r ∈ db.recipients, r.role = .signer → r.status ≠ .completed

/-- While a copy waits in the first group one signer at most has signed. -/
def OneSigned (first : Nat) (db : Db) : Prop :=
  ¬ AllSigned db.recipients → ∀ q ∈ db.recipients, q.status = .pending → q.routingOrder = first →
    ∀ r ∈ db.recipients, ∀ r' ∈ db.recipients, r.role = .signer → r'.role = .signer →
      r.status = .completed → r'.status = .completed → r = r'

/-- What the process that moves knows of the rows. -/
def Poised (first : Nat) (db : Db) : Proc → Prop
  | .advancing _ _ => OneSigned first db
  | .writing (.handedOff group _) _ =>
      OneSigned first db ∧ ∃ order, HandsOff db order ∧
        ∀ r ∈ db.recipients, r.status = .pending → r.routingOrder = order → HandOffFor group r.id
  | _ => Resting first db

/-- An envelope at rest may be advanced at any time. -/
theorem Resting.poised {first : Nat} {db : Db} {l : Proc} (h : Resting first db)
    (hwriting : ∀ group now k, l ≠ .writing (.handedOff group now) k) : Poised first db l := by
  unfold Poised
  split
  · intro hunfinished q hq hpending horder r hr _ _ hrole _ hcompleted
    exact absurd hcompleted (h.copy hunfinished q hq hpending horder r hr hrole)
  · exact absurd rfl (hwriting _ _ _)
  · exact h

theorem Poised.resting {first : Nat} {db : Db} {l : Proc} (h : Poised first db l)
    (hadvancing : ∀ documentName now, l ≠ .advancing documentName now)
    (hwriting : ∀ group now k, l ≠ .writing (.handedOff group now) k) : Resting first db := by
  unfold Poised at h
  split at h
  · exact absurd rfl (hadvancing _ _)
  · exact absurd rfl (hwriting _ _ _)
  · exact h

theorem Resting.write {first : Nat} {db : Db} {w : Write} (h : Resting first db) (hw : w.signing = true)
    (hroles : WriteRoles db w)
    (hclaim : ∀ r ∈ db.recipients, (w.onRecipient r).status = .completed → r.status = .completed)
    (hreach : ∀ r ∈ db.recipients, r.status = .pending → (w.onRecipient r).status = .pending) :
    Resting first (db.write w) where
  turn n hlt hands := by
    refine h.turn n hlt (hands.of_write hw hroles hclaim fun r hr hpending => ?_)
    have hle := hands.least _ (mem_write (ne_deleted_of_signing hw) hr) (hreach r hr hpending)
    rwa [onRecipient_routingOrder] at hle
  copy hunfinished q' hq' hpending horder r' hr' hrole hcompleted := by
    obtain ⟨q, hq, rfl⟩ := exists_of_mem_write hq'
    obtain ⟨r, hr, rfl⟩ := exists_of_mem_write hr'
    rw [onRecipient_routingOrder] at horder
    rw [onRecipient_role] at hrole
    exact h.copy (not_allSigned_of_write hw hroles hunfinished) q hq (onRecipient_pending hpending) horder
      r hr hrole (hclaim r hr hcompleted)

/-- A claim signs for one person. -/
theorem OneSigned.of_claimed {first : Nat} {db : Db} {id : Nat} {hash : TokenHash} {data : ClaimData}
    (hids : (db.recipients.map Recipient.id).Nodup) (hroles : WriteRoles db (.claimed id hash data))
    (h : Resting first db) : OneSigned first (db.write (.claimed id hash data)) := by
  intro hunfinished q' hq' hpending horder r' hr' s' hs' hrole hrole' hcompleted hcompleted'
  obtain ⟨q, hq, rfl⟩ := exists_of_mem_write hq'
  obtain ⟨r, hr, rfl⟩ := exists_of_mem_write hr'
  obtain ⟨s, hs, rfl⟩ := exists_of_mem_write hs'
  rw [onRecipient_routingOrder] at horder
  rw [onRecipient_role] at hrole hrole'
  -- Nobody had signed before.
  have hnone := h.copy (not_allSigned_of_write rfl hroles hunfinished) q hq (onRecipient_pending hpending)
    horder
  have hclaimed : ∀ x ∈ db.recipients, x.role = .signer →
      ((Write.claimed id hash data).onRecipient x).status = .completed → x.id = id := by
    intro x hx hxrole hxcompleted
    obtain ⟨_, _, hw, -⟩ := (onRecipient_completed hxcompleted).resolve_left (hnone x hx hxrole)
    exact (Write.claimed.inj hw).1.symm
  have hsame : r = s := eq_of_key_eq hids hr hs
    ((hclaimed r hr hrole hcompleted).trans (hclaimed s hs hrole' hcompleted').symm)
  rw [hsame]

theorem Groups.exists_two {turns : List (RecipientRole × Nat)} {first : Nat} {db : Db}
    (h : Groups turns first db) (hids : (db.recipients.map Recipient.id).Nodup)
    {t : RecipientRole × Nat} (hcount : 2 ≤ turns.count t) :
    ∃ r ∈ db.recipients, ∃ q ∈ db.recipients, r ≠ q ∧ r.turn = t ∧ q.turn = t := by
  have hpair : [t, t].Sublist turns := List.replicate_sublist_iff.mpr hcount
  rw [← h.turns] at hpair
  obtain ⟨rows, hsub, hrows⟩ := List.sublist_map_iff.mp hpair
  have hlength : rows.length = 2 := by
    rw [← List.length_map (f := Recipient.turn), ← hrows]
    rfl
  obtain ⟨r, q, rfl⟩ := List.length_eq_two.mp hlength
  simp only [List.map_cons, List.map_nil, List.cons.injEq, and_true] at hrows
  have hne : r ≠ q := by
    have hnodup := (List.Nodup.of_map Recipient.id hids).sublist hsub
    simpa using hnodup
  exact ⟨r, hsub.mem (by simp), q, hsub.mem (by simp), hne, hrows.1.symm, hrows.2.symm⟩

/-- While a group waits for its turn and a signer comes after it, some signer of its order or below has
not signed. -/
theorem Groups.somebody_signs {turns : List (RecipientRole × Nat)} {first order : Nat} {db : Db}
    (hgroups : Groups turns first db) (hreached : EverybodyReached turns first)
    (hids : (db.recipients.map Recipient.id).Nodup) (hone : OneSigned first db) (hands : HandsOff db order)
    {s : Recipient} (hs : s ∈ db.recipients) (hsrole : s.role = .signer) (hlater : order < s.routingOrder) :
    ¬ ∀ r ∈ db.recipients, r.role = .signer → r.routingOrder ≤ order → r.status = .completed := by
  intro hsigned
  obtain ⟨q, hq, hqpending, hqorder⟩ := hands.pending
  have hsturn := hgroups.turn_mem hs
  have hfirst := hgroups.least q hq
  rcases Nat.lt_or_eq_of_le hfirst with hbeyond | hat
  · -- Somebody in the group signs, and has not been reached yet.
    have hsigner := hreached.signer _ (hgroups.turn_mem hq) _ hsturn hsrole (by simp only; omega)
    obtain ⟨x, hx, hxrole, hxorder⟩ := hgroups.exists_of_turn hsigner
    simp only at hxorder
    have hxpending : x.status = .pending := by
      by_contra hnot
      exact hgroups.reached x hx hnot (by omega) q hq (by omega) hqpending
    rw [hsigned x hx hxrole (by omega)] at hxpending
    cases hxpending
  · -- The copies of the first group: of the two who sign there one at most has signed.
    have hcc : (RecipientRole.cc, first) ∈ turns := by
      have hturn := hgroups.turn_mem hq
      rw [← hat] at hturn
      cases hqrole : q.role with
      | signer => exact absurd hqpending (hgroups.invited q hq hqrole hat.symm)
      | cc => rwa [hqrole] at hturn
    obtain ⟨x, hx, y, hy, hne, hxturn, hyturn⟩ :=
      hgroups.exists_two hids (hreached.two hcc _ hsturn hsrole (by simp only; omega))
    obtain ⟨hxrole, hxorder⟩ := Prod.mk.inj hxturn
    obtain ⟨hyrole, hyorder⟩ := Prod.mk.inj hyturn
    exact hne (hone hands.unfinished q hq hqpending hat.symm x hx y hy hxrole hyrole
      (hsigned x hx hxrole (by omega)) (hsigned y hy hyrole (by omega)))

/-- A hand-off leaves the envelope at rest. -/
theorem Resting.of_handedOff {turns : List (RecipientRole × Nat)} {first order : Nat} {db : Db}
    {group : List HandOff} {now : Int} (hreached : EverybodyReached turns first)
    (hgroups : Groups turns first db) (hids : (db.recipients.map Recipient.id).Nodup)
    (hone : OneSigned first db) (hands : HandsOff db order)
    (hcover : ∀ r ∈ db.recipients, r.status = .pending → r.routingOrder = order → HandOffFor group r.id) :
    Resting first (db.write (.handedOff group now)) where
  turn n hlt hands' := by
    -- Whoever signed after the hand-off had signed before it.
    have hsigned : ∀ r ∈ db.recipients, r.role = .signer → r.routingOrder < n → r.status = .completed := by
      intro r hr hrole hltn
      have hcompleted := hands'.earlier _ (mem_write (by simp) hr) (by rw [onRecipient_role, hrole])
        (by rwa [onRecipient_routingOrder])
      rcases onRecipient_completed hcompleted with hold | ⟨_, _, hw, -⟩
      · exact hold
      · cases hw
    -- The turn that has come is a later group's: this one waits no more.
    have hordern : order < n := by
      obtain ⟨r', hr', hpending, horder⟩ := hands'.pending
      obtain ⟨r, hr, rfl⟩ := exists_of_mem_write hr'
      rw [onRecipient_routingOrder] at horder
      have hle := hands.least r hr (onRecipient_pending hpending)
      rcases Nat.lt_or_eq_of_le hle with hlt' | heq
      · omega
      · exact absurd hpending
          (handedOff_not_pending (hcover r hr (onRecipient_pending hpending) heq.symm))
    obtain ⟨s, hs, hsrole, hsopen⟩ : ∃ s ∈ db.recipients, s.role = .signer ∧ s.status ≠ .completed := by
      by_contra hnone
      exact hands.unfinished fun r hr hrole => by
        by_contra hleft
        exact hnone ⟨r, hr, hrole, hleft⟩
    have hslater : order < s.routingOrder := by
      by_contra hnot
      exact hsopen (hsigned s hs hsrole (by omega))
    exact hgroups.somebody_signs hreached hids hone hands hs hsrole hslater
      fun r hr hrole hle => hsigned r hr hrole (by omega)
  copy _ q' hq' hpending horder := by
    obtain ⟨q, hq, rfl⟩ := exists_of_mem_write hq'
    rw [onRecipient_routingOrder] at horder
    have hqpending := onRecipient_pending hpending
    have hle := hands.least q hq hqpending
    obtain ⟨r, hr, -, hrorder⟩ := hands.pending
    have hfirst := hgroups.least r hr
    exact absurd hpending (handedOff_not_pending (hcover q hq hqpending (by omega)))

/-- A copy in the first group has its turn as soon as somebody looks. -/
theorem Groups.handsOff_first {turns : List (RecipientRole × Nat)} {first : Nat} {db : Db}
    (h : Groups turns first db) (hunfinished : ¬ AllSigned db.recipients) {q : Recipient}
    (hq : q ∈ db.recipients) (hpending : q.status = .pending) (horder : q.routingOrder = first) :
    HandsOff db first where
  request := h.request
  unfinished := hunfinished
  pending := ⟨q, hq, hpending, horder⟩
  least r hr _ := h.least r hr
  earlier r hr _ hlt := absurd (h.least r hr) (by omega)

/-- What advancing decides. -/
theorem Poised.next {cfg : Config} {turns : List (RecipientRole × Nat)} {first : Nat} {w w' : World}
    {l l' : Proc} (hgroups : Groups turns first w.db) (h : Poised first w.db l)
    (hnext : Next cfg w l w' l') (hl : ∀ write k, l ≠ .writing write k) : Poised first w.db l' := by
  by_cases hadvancing : ∃ documentName now, l = .advancing documentName now
  · obtain ⟨documentName, now, rfl⟩ := hadvancing
    cases hnext with
    | stop _ a hend =>
        have hnothing : advanceEnvelope w.db = .nothing := hend
        have hnot : ∀ n, ¬ HandsOff w.db n := by
          intro n hands
          rw [hands.advance] at hnothing
          cases hnothing
        exact ⟨fun n _ => hnot n, fun hunfinished q hq hpending horder =>
          absurd (hgroups.handsOff_first hunfinished hq hpending horder) (hnot first)⟩
    | complete _ _ hcomplete =>
        have hsigned := ((advanceEnvelope_complete_iff w.db).mp hcomplete).2
        exact ⟨fun n _ hands => hands.unfinished hsigned, fun hunfinished => absurd hsigned hunfinished⟩
    | handOff _ _ group hgroup =>
        obtain ⟨order, hands, rfl⟩ := handsOff_of_advance hgroup
        exact ⟨h, order, hands, fun r hr hpending horder => handOffFor_handOffs.mpr
          ⟨r, mem_pendingGroup.mpr ⟨hr, hpending, horder⟩, rfl⟩⟩
  · have hrest : Resting first w.db :=
      h.resting (fun documentName now hl => hadvancing ⟨documentName, now, hl⟩) fun _ _ _ => hl _ _
    refine hrest.poised ?_
    rintro group now k rfl
    obtain ⟨documentName, members, rfl, -⟩ := ((hnext.readies hl).pending _ k rfl).of_handedOff
    exact hadvancing ⟨documentName, now, rfl⟩

theorem Poised.commit {turns : List (RecipientRole × Nat)} {first : Nat} {w : World} {write : Write}
    {k : Kont} (hreached : EverybodyReached turns first) (hgroups : Groups turns first w.db)
    (hids : (w.db.recipients.map Recipient.id).Nodup) (hroles : WriteRoles w.db write)
    (hw : write.signing = true)
    (hclaim : ∀ id hash data, write = .claimed id hash data →
      ∃ token documentName now, k = .claimed token documentName now)
    (h : Poised first w.db (.writing write k)) : Poised first (w.db.write write) (k.after write w.db) := by
  have hafter : ∀ group now k', k.after write w.db ≠ .writing (.handedOff group now) k' := by
    intro group now k' heq
    have hnone := k.pending_after write w.db
    rw [heq] at hnone
    cases hnone
  by_cases hoff : ∃ group now, write = .handedOff group now
  · obtain ⟨group, now, rfl⟩ := hoff
    obtain ⟨hone, order, hands, hcover⟩ := h
    exact (Resting.of_handedOff hreached hgroups hids hone hands hcover).poised hafter
  · have hrest : Resting first w.db := by
      refine h.resting (by simp) fun group now k' heq => ?_
      exact hoff ⟨group, now, (Proc.writing.inj heq).1⟩
    by_cases hsigns : ∃ r ∈ w.db.recipients, (write.onRecipient r).status = .completed ∧
        r.status ≠ .completed
    · obtain ⟨r, hr, hcompleted, hold⟩ := hsigns
      obtain ⟨hash, data, rfl, hhash, hopen⟩ := (onRecipient_completed hcompleted).resolve_left hold
      obtain ⟨token, documentName, now, rfl⟩ := hclaim _ _ _ rfl
      have hcount := count_claimed hids hr hhash hopen data
      simp only [Kont.after, hcount, if_true]
      exact OneSigned.of_claimed hids hroles hrest
    · refine (hrest.write hw hroles (fun r hr hcompleted => ?_) fun r hr hpending => ?_).poised hafter
      · by_contra hold
        exact hsigns ⟨r, hr, hcompleted, hold⟩
      · by_contra hnot
        obtain ⟨group, now, hwr, -⟩ := reached_of_onRecipient hw hpending hnot
        exact hoff ⟨group, now, hwr⟩

/-! ## Every serial run -/

/-- What is known where a step of a serial run is taken. -/
structure SerialStep (turns : List (RecipientRole × Nat)) (first : Nat) (s : System World Proc)
    (l : Label Choice Event) : Prop where
  signing : signingStep l = true
  alone : Alone (fun l : Proc => l.atRest = true) s l
  roles : Holds (fun w : World => Roles w.db) (fun w _ l => ProcRoles w l) (fun _ _ => True) s
  groups : Holds (fun w : World => Groups turns first w.db) (fun w _ l => ProcGroups w.db l)
    (fun _ _ => True) s

theorem poised_act {cfg : Config} {turns : List (RecipientRole × Nat)} {first : Nat}
    (hreached : EverybodyReached turns first) {s : System World Proc} {p : Nat} {c : Choice} {sh : World}
    {l : Proc} (hok : SerialStep turns first s (.proc p c)) (h : Poised first s.shared.db (s.procs p))
    (hact : (service cfg).act p c s.shared (s.procs p) = some (sh, l)) : Poised first sh.db l := by
  have hsteps := hok.signing
  rcases act_cases (p := p) hact with
    ⟨call, rfl, hrest, rfl, rfl⟩ | ⟨rfl, hnext⟩ | ⟨taken, rfl, -⟩ | ⟨rfl, -, -, -⟩
  · have hresting : Resting first s.shared.db := by
      refine h.resting ?_ ?_
      all_goals
        intros
        intro hl
        rw [hl] at hrest
        cases hrest
    exact hresting.poised (by cases call <;> simp [Call.begin])
  · by_cases hl : ∀ write k, s.procs p ≠ .writing write k
    · rw [(hnext.readies hl).same.db]
      exact h.next hok.groups.shared hnext hl
    · simp only [ne_eq, not_forall, not_not] at hl
      obtain ⟨write, k, hl⟩ := hl
      have hproc := hok.roles.proc p
      have hsigning := (hok.groups.proc p).signing
      rw [hl] at hnext h hproc hsigning
      cases hnext with
      | stop _ a hend => exact hend.elim
      | commit _ _ =>
          exact h.commit hreached hok.groups.shared hok.roles.shared.ids (hproc.pending write k rfl)
            (Bool.and_eq_true_iff.mp hsigning).1 fun id hash data hw => hproc.claim id hash data k (by
              rw [← hw]
              rfl)
  · cases hsteps
  · cases hsteps

theorem resting_start {input : SendRequest} {s : Sending} (h : NewEnvelope input s.minted s.db)
    (hgroups : Groups (input.recipients.map SendRecipient.turn) (firstOrder input) s.db) :
    Resting (firstOrder input) s.db where
  turn n hlt hands := by
    -- Somebody of the first group waits there, or has still to sign.
    obtain ⟨r₀, hr₀, -⟩ := h.signer
    obtain ⟨x₀, hx₀, -⟩ := mem_turns h hr₀
    obtain ⟨x, hx, horder⟩ := List.mem_map.mp (List.min?_eq_some_iff.mp (min?_eq_firstOrder hx₀)).1
    obtain ⟨r, hr, hrole, hrorder⟩ := hgroups.exists_of_turn (List.mem_map_of_mem (f := SendRecipient.turn) hx)
    cases hxrole : x.role with
    | signer =>
        exact h.not_completed hr (hands.earlier r hr (hrole.trans hxrole) (by omega))
    | cc =>
        have hni : ¬ Invited input r := by
          rintro ⟨hsigner, -⟩
          rw [hrole, hxrole] at hsigner
          cases hsigner
        have hle := hands.least r hr (h.waiting r hr hni).1
        omega
  copy _ _ _ _ _ r hr _ := h.not_completed hr

/-- An envelope at rest where nobody to sign holds a link has been signed by all. -/
theorem Resting.exists_invited {turns : List (RecipientRole × Nat)} {first : Nat} {db : Db}
    (hreached : EverybodyReached turns first) (hgroups : Groups turns first db) (h : Resting first db)
    (hunfinished : ∃ r ∈ db.recipients, r.role = .signer ∧ r.status ≠ .completed) :
    ∃ r ∈ db.recipients, r.role = .signer ∧ (r.status = .sent ∨ r.status = .viewed) ∧
      r.signingTokenHash ≠ none := by
  by_contra hnobody
  have hwaits : ∀ r ∈ db.recipients, r.role = .signer → r.status ≠ .completed → r.status = .pending := by
    intro r hr hrole hopen
    by_contra hnot
    refine hnobody ⟨r, hr, hrole, ?_, hgroups.links r hr hrole hnot⟩
    cases hstatus : r.status with
    | pending => exact absurd hstatus hnot
    | sent => exact Or.inl rfl
    | viewed => exact Or.inr rfl
    | completed => exact absurd hstatus hopen
  obtain ⟨r, hr, hrole, hopen⟩ := hunfinished
  have hpending := hwaits r hr hrole hopen
  -- The lowest order somebody waits at.
  have hexists : ∃ n, ∃ q ∈ db.recipients, q.status = .pending ∧ q.routingOrder = n :=
    ⟨_, r, hr, hpending, rfl⟩
  have hleast : ∀ q ∈ db.recipients, q.status = .pending → Nat.find hexists ≤ q.routingOrder :=
    fun q hq hqp => Nat.find_min' hexists ⟨q, hq, hqp, rfl⟩
  obtain ⟨q, hq, hqp, hqorder⟩ := Nat.find_spec hexists
  generalize Nat.find hexists = n at hleast hqorder
  have hands : HandsOff db n :=
    { request := hgroups.request
      unfinished := fun hsigned => hopen (hsigned r hr hrole)
      pending := ⟨q, hq, hqp, hqorder⟩
      least := hleast
      earlier := by
        intro x hx hxrole hlt
        by_contra hxopen
        have := hleast x hx (hwaits x hx hxrole hxopen)
        omega }
  rcases Nat.lt_or_eq_of_le (hgroups.least q hq) with hbeyond | hat
  · exact h.turn n (by omega) hands
  · -- Only copies wait in the first group, beside somebody who has signed.
    have hlater : first < r.routingOrder := by
      have hle := hgroups.least r hr
      rcases Nat.lt_or_eq_of_le hle with hlt | heq
      · exact hlt
      · exact absurd hpending (hgroups.invited r hr hrole heq.symm)
    have hsigner := hreached.signer _ (hgroups.turn_mem hq) _ (hgroups.turn_mem hr) hrole
      (by simp only; omega)
    obtain ⟨x, hx, hxrole, hxorder⟩ := hgroups.exists_of_turn hsigner
    simp only at hxorder
    have hxopen := h.copy hands.unfinished q hq hqp hat.symm x hx hxrole
    exact hgroups.invited x hx hxrole (by omega) (hwaits x hx hxrole hxopen)

/-- **Sequential progress**: between submits an envelope whose orders leave nobody out of reach has
somebody invited as long as somebody has still to sign. -/
theorem somebody_is_invited {cfg : Config} {template : Option Template} {input : SendRequest}
    {senderName : Option JsString} {now : Int} {sending : Sending}
    (hinput : SendRequestSchema cfg.platform input = true) (hmode : input.routingMode = .sequential)
    (hreached : EverybodyReached (input.recipients.map SendRecipient.turn) (firstOrder input))
    (hsend : send cfg template input senderName now = .ok sending) {s : System World Proc}
    (hs : Reaches (service cfg)
      (fun s l => signingStep l = true ∧ Alone (fun l : Proc => l.atRest = true) s l)
      (start sending now) s)
    (hrest : AtRest (fun l : Proc => l.atRest = true) s)
    (hunfinished : ∃ r ∈ s.shared.db.recipients, r.role = .signer ∧ r.status ≠ .completed) :
    ∃ r ∈ s.shared.db.recipients, r.role = .signer ∧ (r.status = .sent ∨ r.status = .viewed) ∧
      r.signingTokenHash ≠ none := by
  have hnew := send_spec hinput hsend
  have hroles := Reaches.strengthen (rolesOutline cfg _).holds_step hs (rolesHolds_start hnew now)
  have hgroupsStart := groupsHolds_start hnew hmode now
  have hgroupsStep := fun s l s' hI
      (hok : (signingStep l = true ∧ Alone (fun l : Proc => l.atRest = true) s l) ∧
        Holds (fun w : World => Roles w.db) (fun w _ l => ProcRoles w l) (fun _ _ => True) s) =>
    (groupsOutline cfg (input.recipients.map SendRecipient.turn) (firstOrder input)).holds_step s l s' hI
      ⟨hok.1.1, hok.2⟩
  have hgroups := (Reaches.invariant hgroupsStep hroles hgroupsStart).shared
  have hrun := (Reaches.strengthen hgroupsStep hroles hgroupsStart).mono
    fun s l h => SerialStep.mk h.1.1.1 h.1.1.2 h.1.2 h.2
  have hresting : ∀ (w : World) (l : Proc), l.atRest = true →
      (Poised (firstOrder input) w.db l ↔ Resting (firstOrder input) w.db) := by
    intro w l hl
    cases l <;> first | exact Iff.rfl | cases hl
  have hcarried := serial_invariant (J := fun w : World => Resting (firstOrder input) w.db)
    (A := fun w l => Poised (firstOrder input) w.db l) (fun s l hok => hok.alone) hresting
    (fun s p c sh l hok h hact => poised_act hreached hok h hact)
    (fun s e sh l _ henv h => by rwa [(env_spec henv).db]) hrun
    ⟨0, fun q hq => by simp [start, hq, Proc.atRest],
      by
        simp only [start, if_true]
        exact resting_start hnew hgroupsStart.shared⟩
  exact (serial_at_rest hresting hcarried hrest).exists_invited hreached hgroups hunfinished

/-! ## Two runs -/

/-- Only visits run, one after another. -/
def oneByOne (s : System World Proc) (l : Label Choice Event) : Bool :=
  signingStep l && aloneBelow Proc.atRest 3 s l

theorem alone_of_oneByOne {cfg : Config} {sending : Sending} {now : Int} {s : System World Proc}
    (h : Reaches (service cfg) (fun s l => oneByOne s l = true) (start sending now) s) :
    Reaches (service cfg)
      (fun s l => signingStep l = true ∧ Alone (fun l : Proc => l.atRest = true) s l)
      (start sending now) s := by
  refine Reaches.alone (n := 3) (h.mono fun s l hl => Bool.and_eq_true_iff.mp hl) fun q hq => ?_
  have hq0 : q ≠ 0 := by omega
  simp [start, hq0, Proc.atRest]

/-- One signer, then another with a copy beside: the first one's submit invites the second. -/
theorem somebody_is_invited_second :
    let input := exampleInput .sequential
      [exampleRecipient "a" .signer 1, exampleRecipient "b" .cc 2, exampleRecipient "c" .signer 2]
    ∃ s, replayIf oneByOne exampleConfig exampleTemplate input 0
        (List.replicate 2 (.proc 0 .next) ++ exampleConsent 1 0 ++ exampleClaim 2 0 ++
          List.replicate 4 (.proc 2 .next)) = some s ∧
      ∃ r ∈ s.shared.db.recipients, r.role = .signer ∧ (r.status = .sent ∨ r.status = .viewed) ∧
        r.signingTokenHash ≠ none := by
  intro input
  have hrun : (replayIf oneByOne exampleConfig exampleTemplate input 0
      (List.replicate 2 (.proc 0 .next) ++ exampleConsent 1 0 ++ exampleClaim 2 0 ++
        List.replicate 4 (.proc 2 .next))).map (fun s =>
        [s.shared.db.recipients.any fun r => r.role == .signer && r.status != .completed,
          (List.range 3).all fun p => (s.procs p).atRest]) =
      some [true, true] := by
    decide +kernel
  obtain ⟨s, hs, hfacts⟩ := Option.map_eq_some_iff.mp hrun
  simp only [List.cons.injEq, and_true] at hfacts
  obtain ⟨hunfinished, hprocs⟩ := hfacts
  obtain ⟨sending, hsend, hreaches⟩ := replayIf_spec hs
  have hrest := forall_procs_of_replayIf (Q := Proc.atRest) hs (by decide) (by decide) rfl hprocs
  obtain ⟨r, hr, hcond⟩ := List.any_eq_true.mp hunfinished
  simp only [Bool.and_eq_true, beq_iff_eq, bne_iff_ne] at hcond
  exact ⟨s, hs, somebody_is_invited (by decide +kernel) rfl (by decide +kernel) hsend
    (alone_of_oneByOne hreaches) hrest ⟨r, hr, hcond.1, hcond.2⟩⟩

/-- Between two signers somebody who only gets a copy: after the first has signed, the second is never
invited. -/
theorem nobody_is_invited :
    ∃ s, replayIf oneByOne exampleConfig exampleTemplate
        (exampleInput .sequential
          [exampleRecipient "a" .signer 1, exampleRecipient "b" .cc 2, exampleRecipient "c" .signer 3]) 0
        (List.replicate 2 (.proc 0 .next) ++ exampleConsent 1 0 ++ exampleClaim 2 0 ++
          List.replicate 3 (.proc 2 .next)) = some s ∧
      AtRest (fun l : Proc => l.atRest = true) s ∧
      (∃ r ∈ s.shared.db.recipients, r.role = .signer ∧ r.status ≠ .completed) ∧
      ¬ ∃ r ∈ s.shared.db.recipients, r.role = .signer ∧ (r.status = .sent ∨ r.status = .viewed) ∧
        r.signingTokenHash ≠ none := by
  have hrun : (replayIf oneByOne exampleConfig exampleTemplate
      (exampleInput .sequential
        [exampleRecipient "a" .signer 1, exampleRecipient "b" .cc 2, exampleRecipient "c" .signer 3]) 0
      (List.replicate 2 (.proc 0 .next) ++ exampleConsent 1 0 ++ exampleClaim 2 0 ++
        List.replicate 3 (.proc 2 .next))).map (fun s =>
        [s.shared.db.recipients.any fun r => r.role == .signer && r.status != .completed,
          s.shared.db.recipients.all fun r => !(r.role == .signer && r.open_),
          (List.range 3).all fun p => (s.procs p).atRest]) =
      some [true, true, true] := by
    decide +kernel
  obtain ⟨s, hs, hfacts⟩ := Option.map_eq_some_iff.mp hrun
  simp only [List.cons.injEq, and_true] at hfacts
  obtain ⟨hunfinished, hnobody, hprocs⟩ := hfacts
  have hrest := forall_procs_of_replayIf (Q := Proc.atRest) hs (by decide) (by decide) rfl hprocs
  obtain ⟨r, hr, hcond⟩ := List.any_eq_true.mp hunfinished
  simp only [Bool.and_eq_true, beq_iff_eq, bne_iff_ne] at hcond
  refine ⟨s, hs, hrest, ⟨r, hr, hcond.1, hcond.2⟩, ?_⟩
  rintro ⟨q, hq, hrole, hstatus, -⟩
  have hclosed := List.all_eq_true.mp hnobody q hq
  rw [Recipient.open_iff.mpr hstatus, hrole] at hclosed
  cases hclosed

end ESignSoft.Envelope
