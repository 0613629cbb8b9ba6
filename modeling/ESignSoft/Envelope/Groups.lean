import ESignSoft.Envelope.Roles

/-!
# Routing groups while people sign

In a run of visits alone, nothing sent again, reminded, voided or expired, a sequential envelope is
handed on group by group: whoever has been reached beyond the first group, everybody of that order and
below has been reached.

* `handsOff_iff` — when `advanceEnvelope` hands off, and to whom;
* `Groups.write` — a transaction keeps the groups in order;
* `groupsOutline` — the order in every run.
-/

namespace ESignSoft.Envelope

open ESignSoft.Lib.JsText ESignSoft.Lib.Table ESignSoft.Lib.Interleaving
open ESignSoft.Contracts ESignSoft.Signing

/-! ## When an envelope hands off -/

/-- The next turn is that of the group of this order. -/
structure HandsOff (db : Db) (order : Nat) : Prop where
  request : ∃ row, db.request = some row ∧ row.routingMode = .sequential
  unfinished : ¬ AllSigned db.recipients
  pending : ∃ r ∈ db.recipients, r.status = .pending ∧ r.routingOrder = order
  least : ∀ r ∈ db.recipients, r.status = .pending → order ≤ r.routingOrder
  earlier : ∀ r ∈ db.recipients, r.role = .signer → r.routingOrder < order → r.status = .completed

def pendingGroup (db : Db) (order : Nat) : List Recipient :=
  db.recipients.filter fun r => r.status == .pending && r.routingOrder == order

theorem mem_pendingGroup {db : Db} {order : Nat} {r : Recipient} :
    r ∈ pendingGroup db order ↔ r ∈ db.recipients ∧ r.status = .pending ∧ r.routingOrder = order := by
  simp [pendingGroup]

theorem HandsOff.unique {db : Db} {n n' : Nat} (h : HandsOff db n) (h' : HandsOff db n') : n = n' := by
  obtain ⟨r, hr, hpending, rfl⟩ := h.pending
  obtain ⟨r', hr', hpending', rfl⟩ := h'.pending
  have h1 := h.least r' hr' hpending'
  have h2 := h'.least r hr hpending
  omega

theorem handsOff_of_advance {db : Db} {group : List Recipient} (h : advanceEnvelope db = .handOff group) :
    ∃ order, HandsOff db order ∧ group = pendingGroup db order := by
  obtain ⟨row, order, hrow, hmode, hunfinished, hgroup, hpending, hleast, hearlier⟩ :=
    advanceEnvelope_handOff h
  exact ⟨order, ⟨⟨row, hrow, hmode⟩, hunfinished, hpending, hleast, hearlier⟩, hgroup⟩

theorem HandsOff.advance {db : Db} {order : Nat} (h : HandsOff db order) :
    advanceEnvelope db = .handOff (pendingGroup db order) := by
  obtain ⟨row, hrow, hmode⟩ := h.request
  have hall : ¬ ((db.recipients.filter fun r => r.role == .signer).all
      fun r => r.status == .completed) = true := by
    intro hall
    refine h.unfinished fun r hr hrole => ?_
    simpa using List.all_eq_true.mp hall r (List.mem_filter.mpr ⟨hr, by simp [hrole]⟩)
  have hmin : ((db.recipients.filter fun r => r.status == .pending).map
      Recipient.routingOrder).min? = some order := by
    rw [List.min?_eq_some_iff]
    obtain ⟨r, hr, hpending, horder⟩ := h.pending
    refine ⟨List.mem_map.mpr ⟨r, List.mem_filter.mpr ⟨hr, by simp [hpending]⟩, horder⟩, ?_⟩
    intro n hn
    obtain ⟨q, hq, rfl⟩ := List.mem_map.mp hn
    obtain ⟨hmem, hstatus⟩ := List.mem_filter.mp hq
    exact h.least q hmem (by simpa using hstatus)
  have hearlier : ¬ (db.recipients.any fun r =>
      r.role == .signer && decide (r.routingOrder < order) && r.status != .completed) = true := by
    intro hany
    obtain ⟨r, hr, hcond⟩ := List.any_eq_true.mp hany
    simp only [Bool.and_eq_true, beq_iff_eq, decide_eq_true_eq, bne_iff_ne] at hcond
    exact hcond.2 (h.earlier r hr hcond.1.1 hcond.1.2)
  unfold advanceEnvelope
  simp only [hrow, hmode, hmin]
  rw [if_neg hall, if_neg (by simp), if_neg hearlier, List.filter_filter]
  congr 1
  exact List.filter_congr fun r _ => Bool.and_comm _ _

/-- `advanceEnvelope` hands off exactly when some group's turn has come, and to that group. -/
theorem handsOff_iff {db : Db} {group : List Recipient} :
    advanceEnvelope db = .handOff group ↔ ∃ order, HandsOff db order ∧ group = pendingGroup db order := by
  constructor
  · exact handsOff_of_advance
  · rintro ⟨order, h, rfl⟩
    exact h.advance

/-! ## Runs of visits -/

/-- The transactions of people who sign. -/
def Write.signing : Write → Bool
  | .viewed .. | .viewedLegacy .. | .consented .. | .consentedLegacy .. => true
  | .claimed .. | .claimedLegacy .. | .completed _ | .handedOff .. => true
  | _ => false

def Kont.signing : Kont → Bool
  | .answer _ | .claimed .. | .completed | .handedOff .. => true
  | _ => false

/-- A send that queues its invitations, or a visit. -/
def Proc.signing : Proc → Bool
  | .idle | .done _ | .sending _ => true
  | .resolving .. | .requestReading .. | .recipientReading .. | .loaded .. => true
  | .writing w k => w.signing && k.signing
  | .advancing .. | .inviting .. | .completing => true
  | _ => false

/-- Only visits begin, and nothing fails. -/
def signingStep : Label Choice Event → Bool
  | .proc _ (.call (.visit ..)) => true
  | .proc _ .next => true
  | .env _ => true
  | _ => false

theorem Kont.signing_after {k : Kont} (h : k.signing = true) (w : Write) (db : Db) :
    (k.after w db).signing = true := by
  have hfollows := k.follows_after w db
  generalize k.after w db = l at hfollows ⊢
  cases hfollows <;> first | rfl | cases h

theorem Next.signing {cfg : Config} {w w' : World} {l l' : Proc} (h : Next cfg w l w' l')
    (hl : l.signing = true) : l'.signing = true := by
  cases h with
  | commit write k =>
      simp only [Proc.signing, Bool.and_eq_true] at hl
      exact Kont.signing_after hl.2 write w.db
  | viewing token ip ua req hviewed =>
      unfold LoadedRequest.viewWrite
      split <;> rfl
  | consenting token req hconsent =>
      unfold LoadedRequest.consentWrite
      split <;> rfl
  | claiming token dto ip ua req data hdata =>
      unfold LoadedRequest.claimWrite
      split <;> rfl
  | _ => first | rfl | cases hl

/-! ## The groups -/

/-- Somebody the hand-off is for. -/
def HandOffFor (group : List HandOff) (id : Nat) : Prop :=
  HandOff.cc id ∈ group ∨ ∃ token, HandOff.signer id token ∈ group

/-- What routing knows about a recipient. -/
def Recipient.turn (r : Recipient) : RecipientRole × Nat := (r.role, r.routingOrder)

def SendRecipient.turn (r : SendRecipient) : RecipientRole × Nat := (r.role, r.routingOrder)

/-- The groups of a sequential envelope whose lowest order is `first`. -/
structure Groups (turns : List (RecipientRole × Nat)) (first : Nat) (db : Db) : Prop where
  request : ∃ row, db.request = some row ∧ row.routingMode = .sequential
  turns : db.recipients.map Recipient.turn = turns
  least : ∀ r ∈ db.recipients, first ≤ r.routingOrder
  invited : ∀ r ∈ db.recipients, r.role = .signer → r.routingOrder = first → r.status ≠ .pending
  reached : ∀ r ∈ db.recipients, r.status ≠ .pending → first < r.routingOrder →
    ∀ q ∈ db.recipients, q.routingOrder ≤ r.routingOrder → q.status ≠ .pending
  links : ∀ r ∈ db.recipients, r.role = .signer → r.status ≠ .pending → r.signingTokenHash ≠ none

theorem Groups.turn_mem {turns : List (RecipientRole × Nat)} {first : Nat} {db : Db}
    (h : Groups turns first db) {r : Recipient} (hr : r ∈ db.recipients) :
    (r.role, r.routingOrder) ∈ turns := by
  rw [← h.turns]
  exact List.mem_map_of_mem (f := Recipient.turn) hr

theorem Groups.exists_of_turn {turns : List (RecipientRole × Nat)} {first : Nat} {db : Db}
    (h : Groups turns first db) {role : RecipientRole} {order : Nat} (ht : (role, order) ∈ turns) :
    ∃ r ∈ db.recipients, r.role = role ∧ r.routingOrder = order := by
  rw [← h.turns] at ht
  obtain ⟨r, hr, heq⟩ := List.mem_map.mp ht
  exact ⟨r, hr, (Prod.mk.inj heq).1, (Prod.mk.inj heq).2⟩

/-- The hand-off is for everybody still waiting at its order or below, and for nobody else's turn. -/
def OfGroup (db : Db) (group : List HandOff) (order : Nat) : Prop :=
  (∀ r ∈ db.recipients, r.status = .pending → r.routingOrder ≤ order → HandOffFor group r.id) ∧
    ∀ r ∈ db.recipients, HandOffFor group r.id → r.routingOrder = order

structure ProcGroups (db : Db) (l : Proc) : Prop where
  signing : l.signing = true
  group : ∀ group now k, l.pending = some (.handedOff group now, k) → ∃ order, OfGroup db group order

/-! ## What a transaction of a signer does to a row -/

theorem onRecipient_pending {w : Write} {r : Recipient} (h : (w.onRecipient r).status = .pending) :
    r.status = .pending := by
  have hspec := onRecipient_spec w r
  generalize w.onRecipient r = r' at h hspec
  cases hspec with
  | same => exact h
  | consented now hw hopen hnone => exact h
  | cleared hw hleft => exact h
  | reminded token now hw => exact h
  | viewed now ip ua hw hsent => cases h
  | claimed hash data hw hhash hopen => cases h
  | activated group now hw hcc => cases h
  | invited group now token hw hsigner hpending => cases h
  | resent token now hw => cases h

/-- Whoever was waiting and is not any more was reached by a hand-off. -/
theorem reached_of_onRecipient {w : Write} {r : Recipient} (hw : w.signing = true)
    (hpending : r.status = .pending) (h : (w.onRecipient r).status ≠ .pending) :
    ∃ group now, w = .handedOff group now ∧ HandOffFor group r.id := by
  have hclosed : ¬ r.open_ = true := by
    rw [Recipient.open_iff, hpending]
    simp
  have hspec := onRecipient_spec w r
  generalize w.onRecipient r = r' at h hspec
  cases hspec with
  | same => exact absurd hpending h
  | viewed now ip ua _ hsent =>
      rw [hpending] at hsent
      cases hsent
  | consented now _ hopen hnone => exact absurd hopen hclosed
  | claimed hash data _ hhash hopen => exact absurd hopen hclosed
  | activated group now hwr hcc => exact ⟨group, now, hwr, Or.inl hcc⟩
  | invited group now token hwr hsigner _ => exact ⟨group, now, hwr, Or.inr ⟨token, hsigner⟩⟩
  | cleared hwr hleft =>
      rcases hwr with ⟨_, _, rfl⟩ | ⟨_, _, _, rfl⟩ <;> cases hw
  | resent token now hwr =>
      rw [hwr] at hw
      cases hw
  | reminded token now hwr =>
      rw [hwr] at hw
      cases hw

/-- The link of a signer whose turn has come is not replaced. -/
theorem hash_of_onRecipient {w : Write} {r : Recipient} (hw : w.signing = true)
    (hnot : r.status ≠ .pending) : (w.onRecipient r).signingTokenHash = r.signingTokenHash := by
  have hspec := onRecipient_spec w r
  generalize w.onRecipient r = r' at hspec ⊢
  cases hspec with
  | invited group now token _ hsigner hpending => exact absurd hpending hnot
  | cleared hwr hleft =>
      rcases hwr with ⟨_, _, rfl⟩ | ⟨_, _, _, rfl⟩ <;> cases hw
  | resent token now hwr =>
      rw [hwr] at hw
      cases hw
  | reminded token now hwr =>
      rw [hwr] at hw
      cases hw
  | _ => rfl

/-- A completed signer stays completed. -/
theorem completed_of_onRecipient {db : Db} {w : Write} {r : Recipient} (hw : w.signing = true)
    (hroles : WriteRoles db w) (hr : r ∈ db.recipients) (hrole : r.role = .signer)
    (hcompleted : r.status = .completed) : (w.onRecipient r).status = .completed := by
  have hspec := onRecipient_spec w r
  generalize w.onRecipient r = r' at hspec ⊢
  cases hspec with
  | same => exact hcompleted
  | viewed now ip ua _ hsent =>
      rw [hcompleted] at hsent
      cases hsent
  | consented now _ hopen hnone => exact hcompleted
  | claimed hash data _ hhash hopen => rfl
  | activated group now hwr hcc =>
      have hcc' : r.role = .cc := by
        refine hroles.activates r.id ?_ r hr rfl
        rw [hwr]
        exact mem_activates_handedOff.mpr hcc
      rw [hrole] at hcc'
      cases hcc'
  | invited group now token _ hsigner hpending =>
      rw [hcompleted] at hpending
      cases hpending
  | cleared hwr hleft => exact hcompleted
  | resent token now hwr =>
      rw [hwr] at hw
      cases hw
  | reminded token now hwr => exact hcompleted

/-! ## Steps -/

theorem ne_deleted_of_signing {w : Write} (hw : w.signing = true) : w ≠ .deleted := by
  rintro rfl
  cases hw

/-- A signer whom a hand-off reaches holds the link it has for them. -/
theorem link_of_handedOff {db : Db} {group : List HandOff} {now : Int}
    (hroles : WriteRoles db (.handedOff group now)) {r : Recipient} (hr : r ∈ db.recipients)
    (hrole : r.role = .signer) (hpending : r.status = .pending)
    (hnot : ((Write.handedOff group now).onRecipient r).status ≠ .pending) :
    ∃ token, HandOff.signer r.id token ∈ group ∧
      ((Write.handedOff group now).onRecipient r).signingTokenHash = some (.sha256 token) := by
  have hspec := onRecipient_spec (.handedOff group now) r
  generalize (Write.handedOff group now).onRecipient r = r' at hnot hspec ⊢
  cases hspec with
  | same => exact absurd hpending hnot
  | activated group' now' hwr hcc =>
      -- Only a copy becomes active without a link.
      obtain ⟨rfl, rfl⟩ := Write.handedOff.inj hwr
      rw [hroles.activates r.id (mem_activates_handedOff.mpr hcc) r hr rfl] at hrole
      cases hrole
  | invited group' now' token hwr hsigner _ =>
      obtain ⟨rfl, rfl⟩ := Write.handedOff.inj hwr
      exact ⟨token, hsigner, rfl⟩
  | viewed now' ip ua hwr _ => cases hwr
  | consented now' hwr _ _ => cases hwr
  | claimed hash data hwr _ _ => cases hwr
  | cleared hwr hleft => rcases hwr with ⟨_, _, hwr⟩ | ⟨_, _, _, hwr⟩ <;> cases hwr
  | resent token now' hwr => cases hwr
  | reminded token now' hwr => cases hwr

/-- Where a commit leaves somebody unfinished, somebody was unfinished before. -/
theorem not_allSigned_of_write {db : Db} {w : Write} (hw : w.signing = true) (hroles : WriteRoles db w)
    (h : ¬ AllSigned (db.write w).recipients) : ¬ AllSigned db.recipients := by
  intro hsigned
  refine h fun r' hr' hrole => ?_
  obtain ⟨r, hr, rfl⟩ := exists_of_mem_write hr'
  rw [onRecipient_role] at hrole
  exact completed_of_onRecipient hw hroles hr hrole (hsigned r hr hrole)

/-- Where nobody signs with a commit and nobody waiting is of a lower order, a turn that has come had
come before. -/
theorem HandsOff.of_write {db : Db} {w : Write} {n : Nat} (hw : w.signing = true)
    (hroles : WriteRoles db w)
    (hclaim : ∀ r ∈ db.recipients, (w.onRecipient r).status = .completed → r.status = .completed)
    (hleast : ∀ r ∈ db.recipients, r.status = .pending → n ≤ r.routingOrder)
    (h : HandsOff (db.write w) n) : HandsOff db n where
  request := by
    obtain ⟨row', hrow', hmode⟩ := h.request
    obtain ⟨row, hrow, rfl⟩ := exists_of_write_request hrow'
    exact ⟨row, hrow, by rwa [onRequest_routingMode] at hmode⟩
  unfinished := not_allSigned_of_write hw hroles h.unfinished
  pending := by
    obtain ⟨r', hr', hpending, horder⟩ := h.pending
    obtain ⟨r, hr, rfl⟩ := exists_of_mem_write hr'
    rw [onRecipient_routingOrder] at horder
    exact ⟨r, hr, onRecipient_pending hpending, horder⟩
  least := hleast
  earlier r hr hrole hlt := by
    refine hclaim r hr (h.earlier _ (mem_write (ne_deleted_of_signing hw) hr) ?_ ?_)
    · rw [onRecipient_role, hrole]
    · rwa [onRecipient_routingOrder]

theorem Groups.write {turns : List (RecipientRole × Nat)} {first : Nat} {db : Db} {w : Write}
    (h : Groups turns first db)
    (hroles : WriteRoles db w) (hw : w.signing = true)
    (hgroup : ∀ group now, w = .handedOff group now → ∃ order, OfGroup db group order) :
    Groups turns first (db.write w) where
  request := by
    obtain ⟨row, hrow, hmode⟩ := h.request
    exact ⟨_, write_request (ne_deleted_of_signing hw) hrow, by rw [onRequest_routingMode, hmode]⟩
  turns := by
    rcases write_recipients w db with ⟨-, hdeleted⟩ | ⟨hmap, -⟩
    · exact absurd hdeleted (ne_deleted_of_signing hw)
    · rw [hmap, List.map_map, ← h.turns]
      exact List.map_congr_left fun r _ => by simp [Recipient.turn]
  least := by
    intro r' hr'
    obtain ⟨r, hr, rfl⟩ := exists_of_mem_write hr'
    rw [onRecipient_routingOrder]
    exact h.least r hr
  invited := by
    intro r' hr' hrole horder hpending
    obtain ⟨r, hr, rfl⟩ := exists_of_mem_write hr'
    rw [onRecipient_role] at hrole
    rw [onRecipient_routingOrder] at horder
    exact h.invited r hr hrole horder (onRecipient_pending hpending)
  reached := by
    intro r' hr' hnot hlt q' hq' hle hpending
    obtain ⟨r, hr, rfl⟩ := exists_of_mem_write hr'
    obtain ⟨q, hq, rfl⟩ := exists_of_mem_write hq'
    rw [onRecipient_routingOrder] at hlt
    rw [onRecipient_routingOrder, onRecipient_routingOrder] at hle
    have hqpending := onRecipient_pending hpending
    by_cases hr₀ : r.status = .pending
    · -- `r` is reached by this hand-off, which is for `q` as well.
      obtain ⟨group, now, rfl, hfor⟩ := reached_of_onRecipient hw hr₀ hnot
      obtain ⟨order, hcover, horder⟩ := hgroup group now rfl
      have hro : r.routingOrder = order := horder r hr hfor
      exact handedOff_not_pending (hcover q hq hqpending (by omega)) hpending
    · exact h.reached r hr hr₀ hlt q hq hle hqpending
  links := by
    intro r' hr' hrole hnot
    obtain ⟨r, hr, rfl⟩ := exists_of_mem_write hr'
    rw [onRecipient_role] at hrole
    by_cases hr₀ : r.status = .pending
    · obtain ⟨group, now, rfl, -⟩ := reached_of_onRecipient hw hr₀ hnot
      obtain ⟨token, -, hhash⟩ := link_of_handedOff hroles hr hrole hr₀ hnot
      simp [hhash]
    · rw [hash_of_onRecipient hw hr₀]
      exact h.links r hr hrole hr₀

theorem OfGroup.write {db : Db} {group : List HandOff} {order : Nat} (h : OfGroup db group order)
    (w : Write) : OfGroup (db.write w) group order := by
  constructor
  · intro r' hr' hpending hle
    obtain ⟨r, hr, rfl⟩ := exists_of_mem_write hr'
    rw [onRecipient_routingOrder] at hle
    rw [onRecipient_id]
    exact h.1 r hr (onRecipient_pending hpending) hle
  · intro r' hr' hfor
    obtain ⟨r, hr, rfl⟩ := exists_of_mem_write hr'
    rw [onRecipient_id] at hfor
    rw [onRecipient_routingOrder]
    exact h.2 r hr hfor

/-- The hand-off that gets ready is for the whole group whose turn has come. -/
theorem handOffFor_handOffs {group : List Recipient} {minted id : Nat} :
    HandOffFor (handOffs (mintGroup group minted)) id ↔ ∃ r ∈ group, r.id = id := by
  constructor
  · have hin : ∀ h ∈ handOffs (mintGroup group minted), (h = .cc id ∨ ∃ t, h = .signer id t) →
        ∃ r ∈ group, r.id = id := by
      intro h hh hid
      obtain ⟨⟨r, token⟩, hmem, rfl⟩ := List.mem_map.mp hh
      refine ⟨r, (mintGroup_spec hmem).1, ?_⟩
      cases token with
      | none =>
          rcases hid with hid | ⟨t, hid⟩
          · exact HandOff.cc.inj hid
          · cases hid
      | some token =>
          rcases hid with hid | ⟨t, hid⟩
          · cases hid
          · exact (HandOff.signer.inj hid).1
    rintro (hcc | ⟨token, hsigner⟩)
    · exact hin _ hcc (Or.inl rfl)
    · exact hin _ hsigner (Or.inr ⟨token, rfl⟩)
  · rintro ⟨r, hr, rfl⟩
    obtain ⟨token, hmem⟩ := exists_mintGroup hr minted
    cases token with
    | none => exact Or.inl (List.mem_map.mpr ⟨_, hmem, rfl⟩)
    | some token => exact Or.inr ⟨token, List.mem_map.mpr ⟨_, hmem, rfl⟩⟩

theorem ofGroup_handOffs {db : Db} (hids : (db.recipients.map Recipient.id).Nodup) {order : Nat}
    (h : HandsOff db order) (minted : Nat) :
    OfGroup db (handOffs (mintGroup (pendingGroup db order) minted)) order := by
  constructor
  · intro r hr hpending hle
    have horder : r.routingOrder = order := le_antisymm hle (h.least r hr hpending)
    exact handOffFor_handOffs.mpr ⟨r, mem_pendingGroup.mpr ⟨hr, hpending, horder⟩, rfl⟩
  · intro r hr hfor
    obtain ⟨q, hq, hid⟩ := handOffFor_handOffs.mp hfor
    obtain ⟨hmem, -, horder⟩ := mem_pendingGroup.mp hq
    rw [← eq_of_key_eq hids hmem hr hid]
    exact horder

/-! ## Every run of visits -/

/-- Only visits run, and only signers hold links. -/
def SigningRoles (s : System World Proc) (l : Label Choice Event) : Prop :=
  signingStep l = true ∧
    Holds (fun w : World => Roles w.db) (fun w _ l => ProcRoles w l) (fun _ _ => True) s

/-- A hand-off gets ready where a process advances the envelope. -/
theorem Prepares.of_handedOff {cfg : Config} {w : World} {l : Proc} {group : List HandOff} {now : Int}
    {k : Kont} {minted : Nat} (h : Prepares cfg w l (.handedOff group now) k minted) :
    ∃ documentName members, l = .advancing documentName now ∧ advanceEnvelope w.db = .handOff members ∧
      group = handOffs (mintGroup members w.minted) ∧
      k = .handedOff documentName (handOffInvites (mintGroup members w.minted)) := by
  generalize hwrite : Write.handedOff group now = write at h
  cases h with
  | handedOff documentName now' members hmembers =>
      obtain ⟨rfl, rfl⟩ := Write.handedOff.inj hwrite
      exact ⟨documentName, members, rfl, hmembers, rfl, rfl⟩
  | viewed token ip ua req =>
      unfold LoadedRequest.viewWrite at hwrite
      split at hwrite <;> cases hwrite
  | consented token req _ hconsent =>
      unfold LoadedRequest.consentWrite at hwrite
      split at hwrite <;> cases hwrite
  | claimed token dto ip ua req data hdata =>
      unfold LoadedRequest.claimWrite at hwrite
      split at hwrite <;> cases hwrite
  | _ => cases hwrite

theorem Prepares.ofGroup {cfg : Config} {w : World} {l : Proc} {group : List HandOff} {now : Int}
    {k : Kont} {minted : Nat} (hids : (w.db.recipients.map Recipient.id).Nodup)
    (h : Prepares cfg w l (.handedOff group now) k minted) : ∃ order, OfGroup w.db group order := by
  obtain ⟨documentName, members, -, hmembers, rfl, -⟩ := h.of_handedOff
  obtain ⟨order, hands, rfl⟩ := handsOff_of_advance hmembers
  exact ⟨order, ofGroup_handOffs hids hands w.minted⟩

theorem groupsOutline (cfg : Config) (turns : List (RecipientRole × Nat)) (first : Nat) :
    ProofOutline (service cfg) SigningRoles (fun w => Groups turns first w.db)
      (fun w _ l => ProcGroups w.db l) (fun _ _ => True) where
  act := by
    intro s p c sh l hs hok hact
    have hown := hs.proc p
    have hsigning : l.signing = true := by
      rcases act_cases (p := p) hact with
        ⟨call, rfl, -, -, rfl⟩ | ⟨rfl, hnext⟩ | ⟨taken, rfl, -⟩ | ⟨rfl, -, -, -⟩
      · cases call <;> first | rfl | cases hok.1
      · exact hnext.signing hown.signing
      · cases hok.1
      · cases hok.1
    rcases act_spec (p := p) hact with ⟨write, k, hl, -, rfl, rfl⟩ | hready
    · rw [hl] at hown
      have hwrite := (hok.2.proc p).pending write k (by rw [hl]; rfl)
      have hws : write.signing = true := (Bool.and_eq_true_iff.mp hown.signing).1
      refine ⟨hs.shared.write hwrite hws fun group now hgroup => hown.group group now k (by
          rw [hgroup]
          rfl), ⟨hsigning, ?_⟩, fun q _ => ?_, fun _ _ => ⟨trivial, trivial⟩⟩
      · intro group now k' hl'
        rw [Kont.pending_after] at hl'
        cases hl'
      · refine ⟨(hs.proc q).signing, fun group now k' hl' => ?_⟩
        obtain ⟨order, hof⟩ := (hs.proc q).group group now k' hl'
        exact ⟨order, hof.write write⟩
    · have hdb := hready.same.db
      refine ⟨?_, ⟨hsigning, ?_⟩, fun q _ => ?_, fun _ _ => ⟨trivial, trivial⟩⟩
      · rw [hdb]
        exact hs.shared
      · intro group now k hl'
        rw [hdb]
        exact (hready.pending _ k hl').ofGroup hok.2.shared.ids
      · rw [hdb]
        exact hs.proc q
  env := by
    intro s e sh hs _ henv
    have hdb := (env_spec henv).db
    refine ⟨?_, fun q => ?_⟩
    · rw [hdb]
      exact hs.shared
    · rw [hdb]
      exact hs.proc q

/-- The lowest order of the recipients. -/
def firstOrder (input : SendRequest) : Nat :=
  ((input.recipients.map SendRecipient.routingOrder).min?).getD 0

theorem mem_turns {input : SendRequest} {minted : Nat} {db : Db} (h : NewEnvelope input minted db)
    {r : Recipient} (hr : r ∈ db.recipients) :
    ∃ x ∈ input.recipients, x.role = r.role ∧ x.routingOrder = r.routingOrder := by
  have hmem : (r.role, r.routingOrder) ∈ db.recipients.map fun r => (r.role, r.routingOrder) :=
    List.mem_map_of_mem hr
  rw [h.turns] at hmem
  obtain ⟨x, hx, heq⟩ := List.mem_map.mp hmem
  exact ⟨x, hx, (Prod.mk.inj heq).1, (Prod.mk.inj heq).2⟩

theorem min?_eq_firstOrder {input : SendRequest} {x : SendRecipient} (hx : x ∈ input.recipients) :
    (input.recipients.map SendRecipient.routingOrder).min? = some (firstOrder input) := by
  unfold firstOrder
  cases hmin : (input.recipients.map SendRecipient.routingOrder).min? with
  | none =>
      rw [List.min?_eq_none_iff, List.map_eq_nil_iff] at hmin
      rw [hmin] at hx
      cases hx
  | some n => rfl

/-- In sequential routing the first group's signers are the ones invited. -/
theorem invited_iff {input : SendRequest} {minted : Nat} {db : Db} (h : NewEnvelope input minted db)
    (hmode : input.routingMode = .sequential) {r : Recipient} (hr : r ∈ db.recipients) :
    Invited input r ↔ r.role = .signer ∧ r.routingOrder = firstOrder input := by
  obtain ⟨x, hx, -, -⟩ := mem_turns h hr
  unfold Invited invitedNow
  have hsequential : (RoutingMode.sequential == .parallel) = false := rfl
  rw [hmode, min?_eq_firstOrder hx, hsequential, Bool.false_or, beq_iff_eq, Option.some.injEq]
  exact and_congr_right fun _ => eq_comm

theorem firstOrder_le {input : SendRequest} {minted : Nat} {db : Db} (h : NewEnvelope input minted db)
    {r : Recipient} (hr : r ∈ db.recipients) : firstOrder input ≤ r.routingOrder := by
  obtain ⟨x, hx, -, horder⟩ := mem_turns h hr
  rw [← horder]
  exact (List.min?_eq_some_iff.mp (min?_eq_firstOrder hx)).2 _ (List.mem_map_of_mem hx)

theorem groupsHolds_start {input : SendRequest} {s : Sending} (h : NewEnvelope input s.minted s.db)
    (hmode : input.routingMode = .sequential) (now : Int) :
    Holds (fun w : World => Groups (input.recipients.map SendRecipient.turn) (firstOrder input) w.db)
      (fun w _ l => ProcGroups w.db l) (fun _ _ => True) (start s now) where
  shared :=
    { request := by
        obtain ⟨row, hrow, hmode', -⟩ := h.request
        exact ⟨row, hrow, hmode'.trans hmode⟩
      turns := h.turns
      least := fun r hr => firstOrder_le h hr
      invited := by
        intro r hr hrole horder
        rw [(h.invited r hr ((invited_iff h hmode hr).mpr ⟨hrole, horder⟩)).1]
        simp
      reached := by
        intro r hr hnot hlt
        have hni : ¬ Invited input r := by
          rw [invited_iff h hmode hr]
          omega
        exact absurd (h.waiting r hr hni).1 hnot
      links := by
        intro r hr hrole hnot
        by_cases hi : Invited input r
        · obtain ⟨-, t, -, hhash⟩ := h.invited r hr hi
          rw [hhash]
          simp
        · exact absurd (h.waiting r hr hi).1 hnot }
  proc p := by
    simp only [start]
    split <;> exact ⟨rfl, by simp [Proc.pending]⟩
  pair _ _ _ := trivial

end ESignSoft.Envelope
