import ESignSoft.Envelope.Rows

/-!
# What an envelope does when one person has finished

`advanceEnvelope` reads the envelope and decides; what it then writes is a transaction of its own kind
(`Write.completed`, `Write.handedOff`).  For a hand-off it mints one token for each signer of the next
group, in the order of the rows.

* `advanceEnvelope_complete_iff` — the envelope completes exactly when every signer has;
* `advanceEnvelope_handOff` — whom a hand-off is for;
* `mintGroup_spec` — the tokens of a hand-off are new and distinct.
-/

namespace ESignSoft.Envelope

open ESignSoft.Lib.JsText ESignSoft.Contracts

inductive Decision
  | nothing
  | complete
  | handOff (group : List Recipient)

def advanceEnvelope (db : Db) : Decision :=
  match db.request with
  | none => .nothing
  | some request =>
      let signers := db.recipients.filter fun r => r.role == .signer
      if signers.all fun r => r.status == .completed then .complete
      else if request.routingMode != .sequential then .nothing
      else
        -- The next group is the lowest order that still has someone waiting.
        let waiting := db.recipients.filter fun r => r.status == .pending
        match (waiting.map Recipient.routingOrder).min? with
        | none => .nothing
        | some nextOrder =>
            let earlierUnfinished := db.recipients.any fun r =>
              r.role == .signer && decide (r.routingOrder < nextOrder) && r.status != .completed
            if earlierUnfinished then .nothing
            else .handOff (waiting.filter fun r => r.routingOrder == nextOrder)

/-- Every signer of the envelope has finished. -/
def AllSigned (recipients : List Recipient) : Prop :=
  ∀ r ∈ recipients, r.role = .signer → r.status = .completed

theorem advanceEnvelope_complete_iff (db : Db) :
    advanceEnvelope db = .complete ↔ db.request.isSome ∧ AllSigned db.recipients := by
  have hall : ((db.recipients.filter fun r => r.role == .signer).all fun r => r.status == .completed)
      = true ↔ AllSigned db.recipients := by
    simp only [AllSigned, List.all_eq_true, List.mem_filter, beq_iff_eq, and_imp]
  unfold advanceEnvelope
  cases db.request with
  | none => simp
  | some request =>
      simp only [Option.isSome_some, true_and]
      by_cases hsigned : AllSigned db.recipients
      · simp [hall.mpr hsigned, hsigned]
      · rw [if_neg fun h => hsigned (hall.mp h)]
        simp only [hsigned, iff_false]
        grind

/-- A hand-off is for a sequential envelope with somebody left to sign; the group are the pending
recipients of one order, nobody pending comes before them and every signer before them is done. -/
theorem advanceEnvelope_handOff {db : Db} {group : List Recipient}
    (h : advanceEnvelope db = .handOff group) :
    ∃ request order, db.request = some request ∧ request.routingMode = .sequential ∧
      ¬ AllSigned db.recipients ∧
      group = db.recipients.filter (fun r => r.status == .pending && r.routingOrder == order) ∧
      (∃ r ∈ db.recipients, r.status = .pending ∧ r.routingOrder = order) ∧
      (∀ r ∈ db.recipients, r.status = .pending → order ≤ r.routingOrder) ∧
      ∀ r ∈ db.recipients, r.role = .signer → r.routingOrder < order → r.status = .completed := by
  have hcomplete := advanceEnvelope_complete_iff db
  have hunfinished : ¬ AllSigned db.recipients := by
    intro hsigned
    cases hrequest : db.request with
    | none =>
        unfold advanceEnvelope at h
        rw [hrequest] at h
        cases h
    | some request =>
        rw [hcomplete.mpr ⟨by simp [hrequest], hsigned⟩] at h
        cases h
  unfold advanceEnvelope at h
  cases hrequest : db.request with
  | none =>
      rw [hrequest] at h
      cases h
  | some request =>
      rw [hrequest] at h
      simp only at h
      split at h
      · cases h
      · split at h
        · cases h
        · rename_i hmode
          split at h
          · cases h
          · rename_i order hmin
            split at h
            · cases h
            · rename_i hearlier
              -- The order is that of somebody waiting, and the least of those.
              have hmin' := List.min?_eq_some_iff.mp hmin
              simp only [List.mem_map, List.mem_filter, beq_iff_eq] at hmin'
              obtain ⟨⟨r, ⟨hr, hpending⟩, horder⟩, hleast⟩ := hmin'
              refine ⟨request, order, rfl, by simpa using hmode, hunfinished, ?_,
                ⟨r, hr, hpending, horder⟩, fun q hq hqp => hleast _ ⟨q, ⟨hq, hqp⟩, rfl⟩, ?_⟩
              · rw [← Decision.handOff.inj h, List.filter_filter]
                exact List.filter_congr fun q _ => Bool.and_comm _ _
              · intro q hq hrole hlt
                by_contra hstatus
                exact hearlier (List.any_eq_true.mpr ⟨q, hq, by simp [hrole, hlt, hstatus]⟩)

/-! ## Minting -/

/-- One recipient's place in the invitation queue of a hand-off. -/
structure PendingInvite where
  id : Nat
  email : JsString
  name : Option JsString
  token : Nat
  deriving DecidableEq

/-- The group with the tokens minted for its signers, the first of them with number `minted`. -/
def mintGroup : List Recipient → Nat → List (Recipient × Option Nat)
  | [], _ => []
  | r :: rest, minted =>
      if r.role = .signer then (r, some minted) :: mintGroup rest (minted + 1)
      else (r, none) :: mintGroup rest minted

/-- The updates of the hand-off. -/
def handOffs (group : List (Recipient × Option Nat)) : List HandOff :=
  group.map fun m =>
    match m.2 with
    | some token => .signer m.1.id token
    | none => .cc m.1.id

/-- The invitations of the hand-off. -/
def handOffInvites (group : List (Recipient × Option Nat)) : List PendingInvite :=
  group.filterMap fun m => m.2.map fun token => ⟨m.1.id, m.1.email, m.1.name, token⟩

/-- How many tokens a hand-off mints. -/
def mintCount (group : List Recipient) : Nat := group.countP fun r => r.role == .signer

theorem map_fst_mintGroup (group : List Recipient) (minted : Nat) :
    (mintGroup group minted).map Prod.fst = group := by
  induction group generalizing minted with
  | nil => rfl
  | cons r rest ih =>
      unfold mintGroup
      split <;> simp [ih]

theorem mintGroup_spec {group : List Recipient} {minted : Nat} {r : Recipient} {token : Option Nat}
    (h : (r, token) ∈ mintGroup group minted) :
    r ∈ group ∧ (token = none ↔ r.role ≠ .signer) ∧
      ∀ t, token = some t → minted ≤ t ∧ t < minted + mintCount group := by
  induction group generalizing minted with
  | nil => cases h
  | cons q rest ih =>
      unfold mintGroup at h
      by_cases hq : q.role = .signer
      · have hcount : mintCount (q :: rest) = mintCount rest + 1 := by simp [mintCount, hq]
        rw [if_pos hq] at h
        rcases List.mem_cons.mp h with heq | hrest
        · obtain ⟨rfl, rfl⟩ := Prod.mk.inj heq
          refine ⟨List.mem_cons_self, by simp [hq], fun t ht => ?_⟩
          obtain rfl := Option.some.inj ht
          omega
        · obtain ⟨hmem, hnone, hrange⟩ := ih hrest
          refine ⟨List.mem_cons_of_mem _ hmem, hnone, fun t ht => ?_⟩
          have := hrange t ht
          omega
      · have hcount : mintCount (q :: rest) = mintCount rest := by simp [mintCount, hq]
        rw [if_neg hq] at h
        rcases List.mem_cons.mp h with heq | hrest
        · obtain ⟨rfl, rfl⟩ := Prod.mk.inj heq
          exact ⟨List.mem_cons_self, by simp [hq], fun t ht => by cases ht⟩
        · obtain ⟨hmem, hnone, hrange⟩ := ih hrest
          refine ⟨List.mem_cons_of_mem _ hmem, hnone, fun t ht => ?_⟩
          have := hrange t ht
          omega

/-- A token is minted for one member of the group only. -/
theorem mintGroup_inj {group : List Recipient} {minted : Nat} {r r' : Recipient} {token : Nat}
    (h : (r, some token) ∈ mintGroup group minted) (h' : (r', some token) ∈ mintGroup group minted) :
    r = r' := by
  induction group generalizing minted with
  | nil => cases h
  | cons q rest ih =>
      unfold mintGroup at h h'
      by_cases hq : q.role = .signer
      · rw [if_pos hq] at h h'
        -- The rest of the group gets later numbers.
        have hlater : ∀ {x}, (x, some token) ∈ mintGroup rest (minted + 1) → minted + 1 ≤ token :=
          fun hx => ((mintGroup_spec hx).2.2 token rfl).1
        rcases List.mem_cons.mp h with heq | hrest
        · rcases List.mem_cons.mp h' with heq' | hrest'
          · rw [(Prod.mk.inj heq).1, (Prod.mk.inj heq').1]
          · have h1 := Option.some.inj (Prod.mk.inj heq).2
            have h2 := hlater hrest'
            omega
        · rcases List.mem_cons.mp h' with heq' | hrest'
          · have h1 := Option.some.inj (Prod.mk.inj heq').2
            have h2 := hlater hrest
            omega
          · exact ih hrest hrest'
      · rw [if_neg hq] at h h'
        rcases List.mem_cons.mp h with heq | hrest
        · cases (Prod.mk.inj heq).2
        · rcases List.mem_cons.mp h' with heq' | hrest'
          · cases (Prod.mk.inj heq').2
          · exact ih hrest hrest'

/-- Every member of the group takes part in the hand-off. -/
theorem exists_mintGroup {group : List Recipient} {r : Recipient} (hr : r ∈ group) (minted : Nat) :
    ∃ token, (r, token) ∈ mintGroup group minted := by
  rw [← map_fst_mintGroup group minted] at hr
  obtain ⟨⟨q, token⟩, hmem, rfl⟩ := List.mem_map.mp hr
  exact ⟨token, hmem⟩

end ESignSoft.Envelope
