import ESignSoft.Envelope.Steps

/-!
# Only signers ever hold a link

Every transaction that stores a link got ready for a recipient whose role is `signer`, and roles never
change; so a `cc` row never has a link and is never completed, whatever runs beside what.

* `Prepares.link` — whom a link is for and that its token is new;
* `rolesOutline` — the assertion is kept by every step.
-/

namespace ESignSoft.Envelope

open ESignSoft.Lib.JsText ESignSoft.Lib.Table ESignSoft.Lib.Interleaving
open ESignSoft.Contracts ESignSoft.Signing

/-! ## Links that get ready -/

/-- What a visit writes stores no link and activates nobody. -/
@[simp] theorem LoadedRequest.links_viewWrite (req : LoadedRequest) (now : Int) (ip ua : Option JsString) :
    (req.viewWrite now ip ua).links = [] := by
  unfold LoadedRequest.viewWrite
  split <;> rfl

@[simp] theorem LoadedRequest.links_consentWrite (req : LoadedRequest) (now : Int) :
    (req.consentWrite now).links = [] := by
  unfold LoadedRequest.consentWrite
  split <;> rfl

@[simp] theorem LoadedRequest.links_claimWrite (req : LoadedRequest) (data : ClaimData) :
    (req.claimWrite data).links = [] := by
  unfold LoadedRequest.claimWrite
  split <;> rfl

@[simp] theorem LoadedRequest.activates_viewWrite (req : LoadedRequest) (now : Int)
    (ip ua : Option JsString) : (req.viewWrite now ip ua).activates = [] := by
  unfold LoadedRequest.viewWrite
  split <;> rfl

@[simp] theorem LoadedRequest.activates_consentWrite (req : LoadedRequest) (now : Int) :
    (req.consentWrite now).activates = [] := by
  unfold LoadedRequest.consentWrite
  split <;> rfl

@[simp] theorem LoadedRequest.activates_claimWrite (req : LoadedRequest) (data : ClaimData) :
    (req.claimWrite data).activates = [] := by
  unfold LoadedRequest.claimWrite
  split <;> rfl

/-- The recipient a link gets ready for: a member of the next group, somebody whose link is sent
again, or somebody a reminder sweep found due. -/
inductive LinkFor (w : World) (l : Proc) (id : Nat) : Prop
  | handOff (group : List Recipient) (r : Recipient) (hgroup : advanceEnvelope w.db = .handOff group)
      (hr : r ∈ group) (hid : r.id = id) (hrole : r.role = .signer)
  | resend (r : Recipient) (hr : r ∈ w.db.recipients) (hid : r.id = id) (hrole : r.role = .signer)
      (hpending : r.status ≠ .pending)
  | remind (hdue : id ∈ l.due)

theorem Prepares.link {cfg : Config} {w : World} {l : Proc} {write : Write} {k : Kont} {minted : Nat}
    (h : Prepares cfg w l write k minted) {id token : Nat} (hlink : (id, token) ∈ write.links) :
    w.minted ≤ token ∧ token < minted ∧ LinkFor w l id := by
  cases h with
  | viewed token' ip ua req => simp at hlink
  | consented token' req _ hconsent => simp at hlink
  | claimed token' dto ip ua req data hdata => simp at hlink
  | handedOff documentName now group h =>
      obtain ⟨⟨r, t⟩, hmem, heq⟩ := List.mem_map.mp (mem_links_handedOff.mp hlink)
      obtain ⟨hr, hnone, hrange⟩ := mintGroup_spec hmem
      cases t with
      | none => cases heq
      | some t =>
          obtain ⟨hid, rfl⟩ := HandOff.signer.inj heq
          have hrole : r.role = .signer := by
            by_contra hcc
            cases hnone.mpr hcc
          exact ⟨(hrange t rfl).1, (hrange t rfl).2, LinkFor.handOff group r h hr hid hrole⟩
  | resent id' row rc job hrc hrole hcompleted hpending =>
      obtain ⟨rfl, rfl⟩ := Prod.mk.inj (List.mem_singleton.mp hlink)
      obtain ⟨hmem, hid⟩ := Db.findRecipient_mem hrc
      exact ⟨le_refl _, Nat.lt_succ_self _, LinkFor.resend rc hmem hid hrole hpending⟩
  | reminded rc rest total mail hcompleted =>
      obtain ⟨rfl, rfl⟩ := Prod.mk.inj (List.mem_singleton.mp hlink)
      exact ⟨le_refl _, Nat.lt_succ_self _, LinkFor.remind (by simp [Proc.due])⟩
  | _ => cases hlink

/-- A token gets ready for one recipient only. -/
theorem Prepares.link_inj {cfg : Config} {w : World} {l : Proc} {write : Write} {k : Kont} {minted : Nat}
    (h : Prepares cfg w l write k minted) {id id' token : Nat} (hlink : (id, token) ∈ write.links)
    (hlink' : (id', token) ∈ write.links) : id = id' := by
  cases h with
  | viewed token' ip ua req => simp at hlink
  | consented token' req _ hconsent => simp at hlink
  | claimed token' dto ip ua req data hdata => simp at hlink
  | handedOff documentName now group h =>
      obtain ⟨⟨r, t⟩, hmem, heq⟩ := List.mem_map.mp (mem_links_handedOff.mp hlink)
      obtain ⟨⟨r', t'⟩, hmem', heq'⟩ := List.mem_map.mp (mem_links_handedOff.mp hlink')
      cases t with
      | none => cases heq
      | some t =>
          cases t' with
          | none => cases heq'
          | some t' =>
              obtain ⟨rfl, rfl⟩ := HandOff.signer.inj heq
              obtain ⟨rfl, rfl⟩ := HandOff.signer.inj heq'
              rw [mintGroup_inj hmem hmem']
  | resent id' row rc job hrc hrole hcompleted hpending =>
      rw [(Prod.mk.inj (List.mem_singleton.mp hlink)).1, (Prod.mk.inj (List.mem_singleton.mp hlink')).1]
  | reminded rc rest total mail hcompleted =>
      rw [(Prod.mk.inj (List.mem_singleton.mp hlink)).1, (Prod.mk.inj (List.mem_singleton.mp hlink')).1]
  | _ => cases hlink

/-- Only members of the next group who do not sign are activated without a link. -/
theorem Prepares.activate {cfg : Config} {w : World} {l : Proc} {write : Write} {k : Kont}
    {minted : Nat} (h : Prepares cfg w l write k minted) {id : Nat} (hid : id ∈ write.activates) :
    ∃ group, advanceEnvelope w.db = .handOff group ∧ ∃ r ∈ group, r.id = id ∧ r.role = .cc := by
  cases h with
  | viewed token' ip ua req => simp at hid
  | consented token' req _ hconsent => simp at hid
  | claimed token' dto ip ua req data hdata => simp at hid
  | handedOff documentName now group h =>
      obtain ⟨⟨r, t⟩, hmem, heq⟩ := List.mem_map.mp (mem_activates_handedOff.mp hid)
      obtain ⟨hr, hnone, -⟩ := mintGroup_spec hmem
      cases t with
      | none =>
          refine ⟨group, h, r, hr, HandOff.cc.inj heq, ?_⟩
          have hrole := hnone.mp rfl
          cases hcc : r.role with
          | signer => exact absurd hcc hrole
          | cc => rfl
      | some t => cases heq
  | _ => cases hid

/-- A claim that gets ready is the claim of the link that was presented. -/
theorem Prepares.claim {cfg : Config} {w : World} {l : Proc} {id : Nat} {hash : TokenHash}
    {data : ClaimData} {k : Kont} {minted : Nat}
    (h : Prepares cfg w l (.claimed id hash data) k minted) :
    ∃ token visit req, l = .loaded token visit req ∧ req.recipientId = some id ∧
      req.signingTokenHash = hash ∧ req.consentAt ≠ none ∧ data.completedAt = w.now ∧
      ∃ documentName now, k = .claimed token documentName now := by
  generalize hwrite : Write.claimed id hash data = write at h
  cases h with
  | claimed token dto ip ua req data' hdata =>
      unfold LoadedRequest.claimWrite at hwrite
      split at hwrite
      · rename_i id' hid
        obtain ⟨rfl, rfl, rfl⟩ := Write.claimed.inj hwrite
        unfold claimData at hdata
        split at hdata
        · cases hdata
        · rename_i hconsent
          split at hdata
          · cases hdata
          · simp only at hdata
            split at hdata
            · obtain rfl := Option.some.inj hdata
              exact ⟨token, _, req, rfl, hid, rfl, hconsent, rfl, _, _, rfl⟩
            · cases hdata
      · cases hwrite
  | viewed token ip ua req =>
      unfold LoadedRequest.viewWrite at hwrite
      split at hwrite <;> cases hwrite
  | consented token req _ hconsent =>
      unfold LoadedRequest.consentWrite at hwrite
      split at hwrite <;> cases hwrite
  | _ => cases hwrite

theorem mem_of_handOff {db : Db} {group : List Recipient} (h : advanceEnvelope db = .handOff group)
    {r : Recipient} (hr : r ∈ group) : r ∈ db.recipients := by
  obtain ⟨_, _, _, _, _, rfl, _⟩ := advanceEnvelope_handOff h
  exact (List.mem_filter.mp hr).1

/-- What the reminder sweep finds. -/
theorem mem_findRecipientsToRemind {cfg : Config} {db : Db} {now : Int} {id : Nat}
    (h : id ∈ findRecipientsToRemind cfg db now) :
    ∃ r ∈ db.recipients, r.id = id ∧ r.role = .signer ∧ r.open_ = true ∧
      r.signingTokenHash.isSome = true := by
  unfold findRecipientsToRemind at h
  split at h
  · split at h
    · obtain ⟨r, hr, rfl⟩ := List.mem_map.mp h
      have hdue := List.mem_of_mem_take hr
      rw [List.mem_insertionSort, List.mem_filter] at hdue
      obtain ⟨hmem, hcond⟩ := hdue
      simp only [Bool.and_eq_true, beq_iff_eq] at hcond
      exact ⟨r, hmem, rfl, hcond.1.1.1.1, hcond.1.1.1.2, hcond.1.1.2⟩
    · cases h
  · cases h

/-! ## Roles -/

/-- Whoever has this id has this role. -/
def Db.IsRole (db : Db) (id : Nat) (role : RecipientRole) : Prop :=
  ∀ r ∈ db.recipients, r.id = id → r.role = role

theorem Db.IsRole.write {db : Db} {id : Nat} {role : RecipientRole} (h : db.IsRole id role)
    (w : Write) : (db.write w).IsRole id role := by
  intro r' hr' hid
  obtain ⟨r, hr, rfl⟩ := exists_of_mem_write hr'
  rw [onRecipient_role]
  exact h r hr (by rw [← hid, onRecipient_id])

theorem Db.IsRole.of_mem {db : Db} (hids : (db.recipients.map Recipient.id).Nodup) {r : Recipient}
    (hr : r ∈ db.recipients) : db.IsRole r.id r.role := by
  intro q hq hid
  rw [eq_of_key_eq hids hq hr hid]

structure Roles (db : Db) : Prop where
  ids : (db.recipients.map Recipient.id).Nodup
  cc : ∀ r ∈ db.recipients, r.role = .cc → r.signingTokenHash = none ∧ r.status ≠ .completed

/-- A transaction stores links for signers and activates the others. -/
structure WriteRoles (db : Db) (write : Write) : Prop where
  links : ∀ id token, (id, token) ∈ write.links → db.IsRole id .signer
  activates : ∀ id ∈ write.activates, db.IsRole id .cc

structure ProcRoles (w : World) (l : Proc) : Prop where
  pending : ∀ write k, l.pending = some (write, k) → WriteRoles w.db write
  due : ∀ id ∈ l.due, w.db.IsRole id .signer
  /-- The claim of a recipient's row is that of a submit. -/
  claim : ∀ id hash data k, l.pending = some (.claimed id hash data, k) →
    ∃ token documentName now, k = .claimed token documentName now

theorem Roles.write {db : Db} {w : Write} (h : Roles db) (hw : WriteRoles db w) :
    Roles (db.write w) where
  ids := write_ids h.ids
  cc := by
    intro r' hr' hrole
    obtain ⟨r, hr, rfl⟩ := exists_of_mem_write hr'
    rw [onRecipient_role] at hrole
    obtain ⟨hnone, hleft⟩ := h.cc r hr hrole
    constructor
    · rcases onRecipient_hash w r with hsame | hnone' | ⟨token, hlink, -⟩
      · rw [hsame, hnone]
      · exact hnone'
      · rw [hw.links _ _ hlink r hr rfl] at hrole
        cases hrole
    · -- A claim needs a link.
      intro hcompleted
      rcases onRecipient_completed hcompleted with hold | ⟨hash, data, -, hhash, -⟩
      · exact hleft hold
      · rw [hnone] at hhash
        cases hhash

theorem WriteRoles.write {db : Db} {write : Write} (h : WriteRoles db write) (w : Write) :
    WriteRoles (db.write w) write where
  links id token hlink := (h.links id token hlink).write w
  activates id hid := (h.activates id hid).write w

theorem ProcRoles.commit {w : World} {l : Proc} (h : ProcRoles w l) (write : Write) (k : Kont) :
    ProcRoles (w.commit write k) l where
  pending write' k' hl := (h.pending write' k' hl).write write
  due id hid := (h.due id hid).write write
  claim := h.claim

theorem ProcRoles.same {w w' : World} {l : Proc} (h : ProcRoles w l) (hsame : SameRows w w') :
    ProcRoles w' l where
  pending write k hl := by
    rw [hsame.db]
    exact h.pending write k hl
  due id hid := by
    rw [hsame.db]
    exact h.due id hid
  claim := h.claim

theorem ProcRoles.ready {cfg : Config} {w w' : World} {l l' : Proc} (hdb : Roles w.db)
    (h : ProcRoles w l) (hready : Readies cfg w l w' l') : ProcRoles w' l' where
  pending write k hl := by
    rw [hready.same.db]
    have hprep := hready.pending write k hl
    constructor
    · intro id token hlink
      obtain ⟨-, -, hfor⟩ := hprep.link hlink
      cases hfor with
      | handOff group r hgroup hr hid hrole =>
          rw [← hid, ← hrole]
          exact Db.IsRole.of_mem hdb.ids (mem_of_handOff hgroup hr)
      | resend r hr hid hrole hpending =>
          rw [← hid, ← hrole]
          exact Db.IsRole.of_mem hdb.ids hr
      | remind hdue => exact h.due id hdue
    · intro id hid
      obtain ⟨group, hgroup, r, hr, rfl, hrole⟩ := hprep.activate hid
      rw [← hrole]
      exact Db.IsRole.of_mem hdb.ids (mem_of_handOff hgroup hr)
  due id hid := by
    rw [hready.same.db]
    rcases hready.due id hid with hold | hfound
    · exact h.due id hold
    · obtain ⟨r, hr, rfl, hrole, -⟩ := mem_findRecipientsToRemind hfound
      rw [← hrole]
      exact Db.IsRole.of_mem hdb.ids hr
  claim id hash data k hl := by
    obtain ⟨token, -, -, -, -, -, -, -, hk⟩ := (hready.pending _ k hl).claim
    exact ⟨token, hk⟩

theorem ProcRoles.after {w : World} (k : Kont) {write : Write} (h : ProcRoles w (.writing write k)) :
    ProcRoles w (k.after write w.db) where
  pending write' k' hl := by
    rw [Kont.pending_after] at hl
    cases hl
  due id hid := h.due id (k.due_after write w.db id hid)
  claim id hash data k' hl := by
    rw [Kont.pending_after] at hl
    cases hl

theorem rolesOutline (cfg : Config) (ok : System World Proc → Label Choice Event → Prop) :
    ProofOutline (service cfg) ok (fun w => Roles w.db) (fun w _ l => ProcRoles w l)
      (fun _ _ => True) where
  act := by
    intro s p c sh l hs _ hact
    rcases act_spec (p := p) hact with ⟨write, k, hl, -, rfl, rfl⟩ | hready
    · have hown := hs.proc p
      rw [hl] at hown
      refine ⟨hs.shared.write (hown.pending write k rfl), ?_, fun q _ => (hs.proc q).commit write k,
        fun _ _ => ⟨trivial, trivial⟩⟩
      exact (hown.after k).commit write k
    · refine ⟨?_, ProcRoles.ready hs.shared (hs.proc p) hready,
        fun q _ => (hs.proc q).same hready.same, fun _ _ => ⟨trivial, trivial⟩⟩
      rw [hready.same.db]
      exact hs.shared
  env := by
    intro s e sh hs _ henv
    have hsame := env_spec henv
    refine ⟨?_, fun q => (hs.proc q).same hsame⟩
    rw [hsame.db]
    exact hs.shared

/-- A new envelope, and its send about to queue the invitations. -/
theorem rolesHolds_start {input : SendRequest} {s : Sending} (h : NewEnvelope input s.minted s.db)
    (now : Int) :
    Holds (fun w : World => Roles w.db) (fun w _ l => ProcRoles w l) (fun _ _ => True)
      (start s now) where
  shared :=
    { ids := h.ids
      cc := by
        intro r hr hrole
        have hnot : ¬ Invited input r := by
          rintro ⟨hsigner, -⟩
          rw [hrole] at hsigner
          cases hsigner
        obtain ⟨hstatus, hnone⟩ := h.waiting r hr hnot
        refine ⟨hnone, ?_⟩
        rw [hstatus]
        simp }
  proc p := by
    simp only [start]
    split <;> exact ⟨by simp [Proc.pending], by simp [Proc.due], by simp [Proc.pending]⟩
  pair _ _ _ := trivial

end ESignSoft.Envelope
