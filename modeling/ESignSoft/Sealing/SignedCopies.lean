import ESignSoft.Lib.History
import ESignSoft.Sealing.OneSeal

/-!
# The signed copies, once for each person

A run that has the sealed documents in hand mails one letter after another and sets the flag that says so
after the last.  Until then any other run, a retry of this one or the reconciler's, finds a request that is
sealed and not delivered, and mails everybody again from the first.

* `letters_nodup` — one delivery writes to nobody twice;
* `mailed_once_iff` — over all runs nobody is written to twice exactly when every delivery begins before
  anything was mailed for its request.
-/

namespace ESignSoft.Sealing

open ESignSoft.Lib.JsText ESignSoft.Lib.Table ESignSoft.Lib.Interleaving
open ESignSoft.Contracts ESignSoft.Signing ESignSoft.Envelope

variable {C : NodeCrypto}

/-! ## Who is written to -/

def Request.audience (r : Request) : List (JsString × Option JsString) :=
  r.recipients.map fun r => (r.email, r.name)

/-- The letters of a delivery. -/
def Request.letters (r : Request) : List Letter := Sealing.letters r.row r.audience

/-- Addresses that differ in their case only are one. -/
def Letter.address (l : Letter) : JsString := toLowerCase l.to_

/-- The copies of a request that have gone out. -/
def World.copiesOf (w : World) (id : JsString) : List SignedCopy := w.mailed.filter fun c => c.requestId == id

/-- The addresses they went to, newest first. -/
def World.reached (w : World) (id : JsString) : List JsString :=
  (w.copiesOf id).map fun c => c.letter.address

/-- No address has two copies of one request. -/
def MailedOnce (w : World) : Prop := ∀ id, (w.reached id).Nodup

theorem lettersTo_spec (audience : List (JsString × Option JsString)) (seen : List JsString) :
    (((lettersTo audience seen).1).map Letter.address).Nodup ∧
    (∀ l ∈ (lettersTo audience seen).1, l.address ∉ seen) ∧
    ∀ x, x ∈ (lettersTo audience seen).2 ↔ x ∈ seen ∨ x ∈ ((lettersTo audience seen).1).map Letter.address := by
  induction audience generalizing seen with
  | nil => simp [lettersTo]
  | cons person rest ih =>
      obtain ⟨email, name⟩ := person
      by_cases hseen : seen.contains (toLowerCase email) = true
      · simp only [lettersTo, hseen, if_true]
        exact ih seen
      · obtain ⟨hnodup, hnew, hall⟩ := ih (toLowerCase email :: seen)
        simp only [lettersTo, hseen, if_false, Bool.false_eq_true, List.map_cons, List.nodup_cons,
          List.forall_mem_cons]
        refine ⟨⟨fun hmem => ?_, hnodup⟩, ⟨?_, fun l hl hold => ?_⟩, fun x => ?_⟩
        · obtain ⟨l, hl, heq⟩ := List.mem_map.mp hmem
          exact hnew l hl (heq ▸ List.mem_cons_self)
        · simpa [Letter.address] using hseen
        · exact hnew l hl (List.mem_cons_of_mem _ hold)
        · rw [hall x]
          simp only [List.mem_cons, Letter.address]
          tauto

/-- One delivery writes to nobody twice. -/
theorem letters_nodup (row : SignatureRequest) (audience : List (JsString × Option JsString)) :
    ((letters row audience).map Letter.address).Nodup := by
  unfold letters
  generalize (if audience.isEmpty then [(row.recipientEmail, row.recipientName)] else audience) = people
  obtain ⟨hnodup, -, hall⟩ := lettersTo_spec people []
  simp only
  split
  · rename_i email _
    split
    · exact hnodup
    · rename_i hother
      rw [List.map_append, List.nodup_append]
      refine ⟨hnodup, List.nodup_singleton _, fun a ha b hb hab => hother (Or.inr ?_)⟩
      obtain rfl := List.mem_singleton.mp hb
      subst hab
      exact List.contains_iff_mem.mpr ((hall _).mpr (Or.inr ha))
  · exact hnodup

/-! ## Deliveries on record -/

/-- A delivery that hands over its first letter, and the copies of the request that were out before. -/
structure Delivery where
  requestId : JsString
  before : List SignedCopy

/-- Nothing of the delivery has gone out yet: all its letters are still to be mailed. -/
def World.firstLetter (w : World) (req : Request) (rest : List Letter) : List Delivery :=
  if (w.find req.id).any fun r => rest.length == r.letters.length then [⟨req.id, w.copiesOf req.id⟩] else []

def deliveries (_ : Nat) (c : Choice) (w : World) (l : Proc) : List Delivery :=
  match c, l with
  | .next, .mailing req _ _ (letter :: rest) => w.firstLetter req (letter :: rest)
  | .fail true, .mailing req _ _ (letter :: rest) => w.firstLetter req (letter :: rest)
  | _, _ => []

/-- The runs, with the deliveries on record. -/
def deliveringRuns (cfg : Worker C) : Program (Logged World Delivery) Proc Choice Event :=
  (completion cfg).logged deliveries

/-- The delivery began before anything was mailed for its request. -/
def Delivery.begins (d : Delivery) : Bool := d.before.isEmpty

/-! ## What a step has to do with the letters -/

/-- The parties of a request stay the same. -/
structure SameParties (r r' : Request) : Prop where
  id : r'.id = r.id
  audience : r'.audience = r.audience
  letters : ∀ audience, Sealing.letters r'.row audience = Sealing.letters r.row audience

theorem SameParties.refl (r : Request) : SameParties r r := ⟨rfl, rfl, fun _ => rfl⟩

def SameRequests (w w' : World) : Prop := List.Forall₂ SameParties w.requests w'.requests

theorem SameRequests.refl (w : World) : SameRequests w w :=
  List.forall₂_same.mpr fun r _ => SameParties.refl r

theorem SameRequests.update {w : World} {cond : Request → Bool} {set : Request → Request}
    (h : ∀ r, SameParties r (set r)) :
    SameRequests w { w with requests := updateMany cond set w.requests } :=
  forall₂_updateMany (fun r _ => SameParties.refl r) fun r _ _ => h r

/-- The request a run has loaded. -/
def Proc.req : Proc → Option Request
  | .fetching req _ _ | .recipientsReading req _ _ | .sourceReading req _ _ _ => some req
  | .stamping req _ _ _ _ _ | .delivering req _ _ | .mailing req _ _ _ | .marking req => some req
  | .storing a _ | .recording a => some a.req
  | .idle | .done | .failed | .loading _ => none

def Proc.letters : Proc → Option (Request × List Letter)
  | .mailing req _ _ rest => some (req, rest)
  | _ => none

inductive DeliveryStep (w : World) : Proc → World → Proc → List Delivery → Prop
  | opens (req : Request) (signedPdf certificatePdf : Bytes) :
      DeliveryStep w (.delivering req signedPdf certificatePdf) w
        (.mailing req signedPdf certificatePdf
          (letters req.row (((w.find req.id).map Request.audience).getD []))) []
  | sends (req : Request) (signedPdf certificatePdf : Bytes) (letter : Letter) (rest : List Letter) (l' : Proc)
      (h : l' = .mailing req signedPdf certificatePdf rest ∨ l' = .failed) :
      DeliveryStep w (.mailing req signedPdf certificatePdf (letter :: rest))
        { w with mailed := signedCopy req signedPdf certificatePdf letter :: w.mailed } l'
        (w.firstLetter req (letter :: rest))
  | quiet (l : Proc) (w' : World) (l' : Proc) (hrows : SameRequests w w') (hmailed : w'.mailed = w.mailed)
      (hletters : l'.letters = none) (hreq : ∀ req, l'.req = some req → l.req = some req ∨ req ∈ w.requests) :
      DeliveryStep w l w' l' []

/-- A step that neither writes a row nor mails anything, and goes on with the same request. -/
theorem DeliveryStep.same {w w' : World} {l l' : Proc} (hrequests : w'.requests = w.requests)
    (hmailed : w'.mailed = w.mailed) (hletters : l'.letters = none)
    (hreq : l'.req = l.req ∨ l'.req = none) : DeliveryStep w l w' l' [] := by
  refine .quiet l w' l' ?_ hmailed hletters fun req h => ?_
  · unfold SameRequests
    rw [hrequests]
    exact SameRequests.refl w
  · rcases hreq with hsame | hnone
    · exact Or.inl (hsame ▸ h)
    · rw [hnone] at h
      cases h

theorem Request.start_req {req req' : Request} (h : req.start.req = some req') : req' = req := by
  unfold Request.start at h
  split at h
  · cases h
  · split at h
    · cases h
    · split at h
      · cases h
      · split at h
        · exact (Option.some.inj h).symm
        · split at h
          · cases h
          · exact (Option.some.inj h).symm

theorem Request.start_letters (req : Request) : req.start.letters = none := by
  unfold Request.start
  split
  · rfl
  · split
    · rfl
    · split
      · rfl
      · split
        · rfl
        · split <;> rfl

theorem Worker.sealed_req {cfg : Worker C} {uuids saves : Nat} {req : Request} {completedAt : Int}
    {documentKey : List JsString} {recipients : List Recipient} {signedPdf : Bytes} {a : Artifacts}
    (h : cfg.sealed uuids saves req completedAt documentKey recipients signedPdf = some a) :
    a.req = req := by
  unfold Worker.sealed at h
  simp only at h
  split at h
  · obtain rfl := Option.some.inj h
    rfl
  · cases h

theorem next_deliveryStep {cfg : Worker C} {p : Nat} {w w' : World} {l l' : Proc}
    (h : next cfg w l = some (w', l')) : DeliveryStep w l w' l' (deliveries p .next w l) := by
  cases l with
  | idle => cases h
  | done => cases h
  | failed => cases h
  | loading id =>
      simp only [next] at h
      split at h <;> obtain ⟨rfl, rfl⟩ := Prod.mk.inj (Option.some.inj h)
      · exact .same rfl rfl rfl (Or.inr rfl)
      · rename_i req hreq
        refine .quiet _ _ _ (SameRequests.refl _) rfl req.start_letters fun req' hreq' => Or.inr ?_
        rw [Request.start_req hreq']
        exact List.mem_of_find?_eq_some hreq
  | fetching req signedPdfKey certificateKey =>
      simp only [next] at h
      split at h <;> obtain ⟨rfl, rfl⟩ := Prod.mk.inj (Option.some.inj h)
      · exact .same rfl rfl rfl (Or.inl rfl)
      · exact .same rfl rfl rfl (Or.inr rfl)
  | recipientsReading req completedAt documentKey =>
      obtain ⟨rfl, rfl⟩ := Prod.mk.inj (Option.some.inj h)
      exact .same rfl rfl rfl (Or.inl rfl)
  | sourceReading req completedAt documentKey recipients =>
      simp only [next] at h
      split at h <;> obtain ⟨rfl, rfl⟩ := Prod.mk.inj (Option.some.inj h)
      · exact .same rfl rfl rfl (Or.inl rfl)
      · exact .same rfl rfl rfl (Or.inr rfl)
  | stamping req completedAt documentKey recipients rest signedPdf =>
      cases rest with
      | cons pass rest =>
          simp only [next] at h
          split at h <;> obtain ⟨rfl, rfl⟩ := Prod.mk.inj (Option.some.inj h)
          · exact .same rfl rfl rfl (Or.inr rfl)
          · exact .same rfl rfl rfl (Or.inl rfl)
      | nil =>
          simp only [next] at h
          split at h
          · obtain ⟨rfl, rfl⟩ := Prod.mk.inj (Option.some.inj h)
            exact .same rfl rfl rfl (Or.inr rfl)
          · rename_i a ha
            obtain ⟨rfl, rfl⟩ := Prod.mk.inj (Option.some.inj h)
            exact .same rfl rfl rfl (Or.inl (congrArg some (Worker.sealed_req ha)))
  | storing a pending =>
      cases pending with
      | nil =>
          obtain ⟨rfl, rfl⟩ := Prod.mk.inj (Option.some.inj h)
          exact .same rfl rfl rfl (Or.inl rfl)
      | cons x rest =>
          obtain ⟨rfl, rfl⟩ := Prod.mk.inj (Option.some.inj h)
          exact .same rfl rfl rfl (Or.inl rfl)
  | recording a =>
      obtain ⟨rfl, rfl⟩ := Prod.mk.inj (Option.some.inj h)
      refine .quiet _ _ _ (SameRequests.update fun r => ⟨rfl, rfl, fun _ => rfl⟩) rfl ?_ fun req hreq => ?_
      · split <;> rfl
      · split at hreq
        · exact Or.inl hreq
        · cases hreq
  | delivering req signedPdf certificatePdf =>
      obtain ⟨rfl, rfl⟩ := Prod.mk.inj (Option.some.inj h)
      have hopens := DeliveryStep.opens (w := w) req signedPdf certificatePdf
      cases hfind : w.find req.id with
      | none =>
          rw [hfind] at hopens
          exact hopens
      | some r =>
          rw [hfind] at hopens
          exact hopens
  | mailing req signedPdf certificatePdf rest =>
      cases rest with
      | nil =>
          obtain ⟨rfl, rfl⟩ := Prod.mk.inj (Option.some.inj h)
          exact .same rfl rfl rfl (Or.inl rfl)
      | cons letter rest =>
          obtain ⟨rfl, rfl⟩ := Prod.mk.inj (Option.some.inj h)
          exact .sends req signedPdf certificatePdf letter rest _ (Or.inl rfl)
  | marking req =>
      obtain ⟨rfl, rfl⟩ := Prod.mk.inj (Option.some.inj h)
      exact .quiet _ _ _ (SameRequests.update fun r => ⟨rfl, rfl, fun _ => rfl⟩) rfl rfl
        fun req hreq => by cases hreq

theorem act_deliveryStep {cfg : Worker C} {p : Nat} {c : Choice} {w w' : World} {l l' : Proc}
    (h : act cfg p c w l = some (w', l')) : DeliveryStep w l w' l' (deliveries p c w l) := by
  cases c with
  | call id =>
      simp only [act] at h
      split at h
      · obtain ⟨rfl, rfl⟩ := Prod.mk.inj (Option.some.inj h)
        exact .same rfl rfl rfl (Or.inr rfl)
      · cases h
  | next => exact next_deliveryStep h
  | other =>
      simp only [act] at h
      split at h
      · obtain ⟨rfl, rfl⟩ := Prod.mk.inj (Option.some.inj h)
        exact .same rfl rfl rfl (Or.inl rfl)
      · cases h
  | fail sent =>
      simp only [act] at h
      split at h
      · obtain ⟨rfl, rfl⟩ := Prod.mk.inj (Option.some.inj h)
        cases sent with
        | false => exact .same rfl rfl rfl (Or.inr rfl)
        | true => exact .sends _ _ _ _ _ _ (Or.inr rfl)
      · cases h
  | crash =>
      simp only [act] at h
      split at h
      · cases h
      · obtain ⟨rfl, rfl⟩ := Prod.mk.inj (Option.some.inj h)
        exact .same rfl rfl rfl (Or.inr rfl)

/-- The clock and the envelopes' own transactions leave the parties and the mail alone. -/
theorem env_parties {e : Event} {w w' : World} (h : env e w = some w') :
    SameRequests w w' ∧ w'.mailed = w.mailed := by
  cases e with
  | clock now =>
      obtain rfl := Option.some.inj h
      exact ⟨SameRequests.refl w, rfl⟩
  | wrote id write =>
      obtain rfl := Option.some.inj h
      refine ⟨SameRequests.update fun r => ⟨rfl, ?_, fun audience => ?_⟩, rfl⟩
      · simp [Request.audience, Function.comp_def]
      · simp [Sealing.letters]

/-! ## Every delivery has the same letters -/

section Parties

variable {full : JsString → List Letter}

/-- The letters of each request, throughout a run. -/
structure Addressed (full : JsString → List Letter) (w : World) : Prop where
  ids : (w.requests.map Request.id).Nodup
  letters : ∀ r ∈ w.requests, r.letters = full r.id

/-- A run that has loaded a request writes the letters of its row. -/
structure Proc.Writes (full : JsString → List Letter) (w : World) (l : Proc) : Prop where
  req : ∀ req, l.req = some req → ∃ r ∈ w.requests, r.id = req.id ∧
    Sealing.letters req.row r.audience = full req.id
  rest : ∀ req rest, l.letters = some (req, rest) → rest <:+ full req.id

theorem Addressed.same {w w' : World} (h : Addressed full w) (hsame : SameRequests w w') :
    Addressed full w' where
  ids := by
    rw [map_eq_of_forall₂ hsame fun _ _ hparties => hparties.id]
    exact h.ids
  letters r' hr' := by
    obtain ⟨r, hr, hparties⟩ := exists_of_forall₂_right hsame hr'
    unfold Request.letters
    rw [hparties.audience, hparties.letters, hparties.id]
    exact h.letters r hr

theorem Proc.Writes.same {w w' : World} {l : Proc} (h : l.Writes full w) (hsame : SameRequests w w') :
    l.Writes full w' where
  req req hreq := by
    obtain ⟨r, hr, hid, hletters⟩ := h.req req hreq
    obtain ⟨r', hr', hparties⟩ := exists_of_forall₂_left hsame hr
    exact ⟨r', hr', hparties.id.trans hid, by rw [hparties.audience, hletters]⟩
  rest := h.rest

/-- A run without a request. -/
theorem Proc.Writes.of_none {w : World} {l : Proc} (hreq : l.req = none) (hletters : l.letters = none) :
    l.Writes full w where
  req req h := by
    rw [hreq] at h
    cases h
  rest req rest h := by
    rw [hletters] at h
    cases h

theorem find_of_mem {w : World} (hids : (w.requests.map Request.id).Nodup) {r : Request}
    (hr : r ∈ w.requests) : w.find r.id = some r :=
  find?_eq_some_of_mem hids hr (by simp) fun q _ hq => eq_of_beq hq

theorem DeliveryStep.writes {w w' : World} {l l' : Proc} {new : List Delivery}
    (h : DeliveryStep w l w' l' new) (hshared : Addressed full w) (hown : l.Writes full w) :
    SameRequests w w' ∧ l'.Writes full w' := by
  cases h with
  | opens req signedPdf certificatePdf =>
      refine ⟨SameRequests.refl w, hown.req, fun req' rest hrest => ?_⟩
      obtain ⟨rfl, rfl⟩ := Prod.mk.inj (Option.some.inj hrest)
      obtain ⟨r, hr, hid, hletters⟩ := hown.req req rfl
      rw [← hid, find_of_mem hshared.ids hr, Option.map_some, Option.getD_some, hletters, hid]
  | sends req signedPdf certificatePdf letter rest l' h =>
      refine ⟨SameRequests.refl w, ?_⟩
      rcases h with rfl | rfl
      · refine ⟨hown.req, fun req' rest' hrest => ?_⟩
        obtain ⟨rfl, rfl⟩ := Prod.mk.inj (Option.some.inj hrest)
        exact (List.suffix_cons letter rest).trans (hown.rest req _ rfl)
      · exact .of_none rfl rfl
  | quiet l w' l' hrows hmailed hletters hreq =>
      refine ⟨hrows, Proc.Writes.same ⟨fun req h => ?_, fun req rest hrest => ?_⟩ hrows⟩
      · rcases hreq req h with hold | hmem
        · exact hown.req req hold
        · exact ⟨req, hmem, rfl, hshared.letters req hmem⟩
      · rw [hletters] at hrest
        cases hrest

theorem writesOutline (full : JsString → List Letter) (cfg : Worker C)
    (ok : System World Proc → Label Choice Event → Prop) :
    ProofOutline (completion cfg) ok (Addressed full) (fun w _ l => l.Writes full w) (fun _ _ => True) where
  act s p c sh l' hs _ hact := by
    obtain ⟨hsame, hown⟩ := (act_deliveryStep (p := p) hact).writes hs.shared (hs.proc p)
    exact ⟨hs.shared.same hsame, hown, fun q _ => (hs.proc q).same hsame, fun _ _ => ⟨trivial, trivial⟩⟩
  env s e sh hs _ henv := by
    obtain ⟨hsame, -⟩ := env_parties henv
    exact ⟨hs.shared.same hsame, fun q => (hs.proc q).same hsame⟩

theorem writesHolds_start (now : Int) {requests : List Request} (storage : Storage)
    (hids : (requests.map Request.id).Nodup) :
    ∃ full, Holds (Addressed full) (fun w _ l => l.Writes full w) (fun _ _ => True)
      (start now requests storage) := by
  refine ⟨fun id => ((requests.find? fun r => r.id == id).map Request.letters).getD [], ⟨hids, fun r hr => ?_⟩,
    fun p => .of_none rfl rfl, fun _ _ _ => trivial⟩
  have hfind : (requests.find? fun q => q.id == r.id) = some r :=
    find?_eq_some_of_mem hids hr (by simp) fun q _ hq => eq_of_beq hq
  rw [hfind]
  rfl

/-! ## Who has been reached -/

/-- The request of a delivery some of whose letters have gone out and some may have not. -/
def Proc.midway (full : JsString → List Letter) (l : Proc) : Option JsString :=
  match l.letters with
  | some (req, rest) => if rest.length < (full req.id).length then some req.id else none
  | none => none

theorem Proc.midway_of_letters {l : Proc} (h : l.letters = none) : l.midway full = none := by
  simp [Proc.midway, h]

theorem reached_send (w : World) (copy : SignedCopy) (id : JsString) :
    World.reached { w with mailed := copy :: w.mailed } id =
      if copy.requestId = id then copy.letter.address :: w.reached id else w.reached id := by
  unfold World.reached World.copiesOf
  by_cases hid : copy.requestId = id <;> simp [hid]

theorem reached_send_self (w : World) (req : Request) (signedPdf certificatePdf : Bytes) (letter : Letter) :
    World.reached { w with mailed := signedCopy req signedPdf certificatePdf letter :: w.mailed } req.id =
      letter.address :: w.reached req.id :=
  (reached_send w _ req.id).trans (if_pos rfl)

theorem reached_send_other (w : World) {req : Request} {id : JsString} (h : req.id ≠ id)
    (signedPdf certificatePdf : Bytes) (letter : Letter) :
    World.reached { w with mailed := signedCopy req signedPdf certificatePdf letter :: w.mailed } id =
      w.reached id :=
  (reached_send w _ id).trans (if_neg h)

/-- The first letter of a delivery is the first of all its letters. -/
theorem firstLetter_eq {w : World} (hshared : Addressed full w) {l : Proc} (hown : l.Writes full w)
    {req : Request} {rest : List Letter} (hl : l.letters = some (req, rest)) (hreq : l.req = some req) :
    (rest = full req.id ∧ w.firstLetter req rest = [⟨req.id, w.copiesOf req.id⟩]) ∨
      (l.midway full = some req.id ∧ w.firstLetter req rest = []) := by
  obtain ⟨r, hr, hid, -⟩ := hown.req req hreq
  have hfind := find_of_mem hshared.ids hr
  have hfull := hshared.letters r hr
  rw [hid] at hfind hfull
  have hsuffix := hown.rest req rest hl
  unfold World.firstLetter
  rw [hfind, Option.any_some, hfull]
  by_cases hlength : rest.length = (full req.id).length
  · exact Or.inl ⟨hsuffix.eq_of_length hlength, if_pos (by simp [hlength])⟩
  · have hlt : rest.length < (full req.id).length := lt_of_le_of_ne hsuffix.length_le hlength
    exact Or.inr ⟨by simp [Proc.midway, hl, hlt], if_neg (by simp [hlength])⟩

/-- A delivery opens with all its letters. -/
theorem midway_of_opens {w : World} (hshared : Addressed full w) {req : Request}
    {signedPdf certificatePdf : Bytes}
    (hown : (Proc.delivering req signedPdf certificatePdf).Writes full w) :
    (Proc.mailing req signedPdf certificatePdf
      (letters req.row (((w.find req.id).map Request.audience).getD []))).midway full = none := by
  obtain ⟨r, hr, hid, hletters⟩ := hown.req req rfl
  have hfind := find_of_mem hshared.ids hr
  rw [hid] at hfind
  simp [Proc.midway, Proc.letters, hfind, hletters]

/-- What is known of the runs throughout. -/
abbrev Writing (full : JsString → List Letter) : System World Proc → Prop :=
  Holds (Addressed full) (fun w _ l => l.Writes full w) (fun _ _ => True)

/-! ### A delivery that begins late repeats its first letter -/

/-- The first letter for the request has gone out. -/
def Opened (full : JsString → List Letter) (w : World) (id : JsString) : Prop :=
  ∃ letter, (full id).head? = some letter ∧ letter.address ∈ w.reached id

structure Repeats (full : JsString → List Letter) (s : Logged World Delivery) : Prop where
  opened : ∀ id, s.state.reached id ≠ [] → Opened full s.state id
  again : ∀ d ∈ s.log, d.begins = false → ¬ (s.state.reached d.requestId).Nodup

theorem Opened.send {w : World} {id : JsString} (h : Opened full w id) (copy : SignedCopy) :
    Opened full { w with mailed := copy :: w.mailed } id := by
  obtain ⟨letter, hhead, hmem⟩ := h
  refine ⟨letter, hhead, ?_⟩
  rw [reached_send]
  split
  · exact List.mem_cons_of_mem _ hmem
  · exact hmem

theorem not_nodup_send {w : World} {id : JsString} (h : ¬ (w.reached id).Nodup) (copy : SignedCopy) :
    ¬ (World.reached { w with mailed := copy :: w.mailed } id).Nodup := by
  rw [reached_send]
  split
  · exact fun hnodup => h (List.nodup_cons.mp hnodup).2
  · exact h

theorem reached_of_mailed {w w' : World} (h : w'.mailed = w.mailed) (id : JsString) :
    w'.reached id = w.reached id := by
  simp [World.reached, World.copiesOf, h]

theorem Repeats.step {s s' : Logged World Delivery} {l l' : Proc} {new : List Delivery}
    (h : Repeats full s) (hown : ∀ id, l.midway full = some id → Opened full s.state id)
    (hshared : Addressed full s.state) (hwrites : l.Writes full s.state)
    (hstep : DeliveryStep s.state l s'.state l' new) (hlog : s'.log = new ++ s.log) :
    Repeats full s' ∧ (∀ id, l'.midway full = some id → Opened full s'.state id) ∧
      ∀ id, Opened full s.state id → Opened full s'.state id := by
  obtain ⟨w', log'⟩ := s'
  obtain rfl : log' = new ++ s.log := hlog
  cases hstep with
  | opens req signedPdf certificatePdf =>
      refine ⟨h, fun id hid => ?_, fun _ hopened => hopened⟩
      rw [midway_of_opens hshared hwrites] at hid
      cases hid
  | sends req signedPdf certificatePdf letter rest l' hl' =>
      have hfirst := firstLetter_eq hshared hwrites rfl rfl
      have hself := reached_send_self s.state req signedPdf certificatePdf letter
      -- The first letter is going out, or it has.
      have hopened : Opened full
          { s.state with mailed := signedCopy req signedPdf certificatePdf letter :: s.state.mailed }
          req.id := by
        rcases hfirst with ⟨hall, -⟩ | ⟨hmidway, -⟩
        · refine ⟨letter, by rw [← hall]; rfl, ?_⟩
          rw [hself]
          exact List.mem_cons_self
        · exact (hown req.id hmidway).send _
      refine ⟨⟨fun id hreached => ?_, fun d hd hlate => ?_⟩, fun id hid => ?_,
        fun id hwas => hwas.send _⟩
      · by_cases hid : req.id = id
        · exact hid ▸ hopened
        · refine (h.opened id ?_).send _
          rwa [reached_send_other s.state hid] at hreached
      · rcases List.mem_append.mp hd with hnew | hold
        · rcases hfirst with ⟨hall, hemits⟩ | ⟨-, hemits⟩
          · rw [hemits] at hnew
            obtain rfl := List.mem_singleton.mp hnew
            have hcopies : s.state.reached req.id ≠ [] := by
              simpa [Delivery.begins, World.reached] using hlate
            obtain ⟨first, hhead, hmem⟩ := h.opened req.id hcopies
            obtain rfl : letter = first := by
              rw [← hall] at hhead
              exact Option.some.inj hhead
            rw [hself]
            exact fun hnodup => (List.nodup_cons.mp hnodup).1 hmem
          · rw [hemits] at hnew
            cases hnew
        · exact not_nodup_send (h.again d hold hlate) _
      · rcases hl' with rfl | rfl
        · have hmid : id = req.id := by
            simp only [Proc.midway, Proc.letters] at hid
            split at hid
            · exact (Option.some.inj hid).symm
            · cases hid
          exact hmid ▸ hopened
        · cases hid
  | quiet l w' l' hrows hmailed hletters hreq =>
      have hsame : ∀ id, w'.reached id = s.state.reached id := reached_of_mailed hmailed
      refine ⟨⟨fun id hreached => ?_, fun d hd hlate => ?_⟩, fun id hid => ?_, fun id hwas => ?_⟩
      · obtain ⟨first, hhead, hmem⟩ := h.opened id (by rwa [← hsame])
        exact ⟨first, hhead, by rwa [hsame]⟩
      · show ¬ (w'.reached d.requestId).Nodup
        rw [hsame]
        exact h.again d hd hlate
      · rw [Proc.midway_of_letters hletters] at hid
        cases hid
      · obtain ⟨first, hhead, hmem⟩ := hwas
        exact ⟨first, hhead, by rwa [hsame]⟩

theorem repeatsOutline (full : JsString → List Letter) (cfg : Worker C) :
    ProofOutline (deliveringRuns cfg) (fun s _ => True ∧ Writing full s.unlogged) (Repeats full)
      (fun s _ l => ∀ id, l.midway full = some id → Opened full s.state id) (fun _ _ => True) where
  act s p c sh l' hs hok hact := by
    obtain ⟨hplain, hlog⟩ := Program.logged_act hact
    obtain ⟨hshared, hown, hkept⟩ := hs.shared.step (hs.proc p) hok.2.shared (hok.2.proc p)
      (act_deliveryStep (p := p) hplain) hlog
    exact ⟨hshared, hown, fun q _ id hid => hkept id (hs.proc q id hid), fun _ _ => ⟨trivial, trivial⟩⟩
  env s e sh hs hok henv := by
    obtain ⟨hplain, hlog⟩ := Program.logged_env henv
    obtain ⟨hsame, hmailed⟩ := env_parties hplain
    have hquiet : DeliveryStep s.shared.state .idle sh.state .idle [] :=
      .quiet _ _ _ hsame hmailed rfl fun req h => by cases h
    obtain ⟨hshared, -, hkept⟩ := hs.shared.step (fun id h => by cases h) hok.2.shared (.of_none rfl rfl)
      hquiet hlog
    exact ⟨hshared, fun q id hid => hkept id (hs.proc q id hid)⟩

/-! ### Deliveries that begin in time reach everybody once -/

/-- Whoever is still to be written to has not been reached, and somebody has. -/
structure Proc.Continues (full : JsString → List Letter) (w : World) (l : Proc) : Prop where
  reached : ∀ id, l.midway full = some id → w.reached id ≠ []
  new : ∀ id, l.midway full = some id → ∀ req rest, l.letters = some (req, rest) →
    ∀ letter ∈ rest, letter.address ∉ w.reached id

theorem Proc.Continues.of_none {w : World} {l : Proc} (h : l.midway full = none) : l.Continues full w where
  reached id hid := by
    rw [h] at hid
    cases hid
  new id hid := by
    rw [h] at hid
    cases hid

theorem Proc.Continues.of_reached {w w' : World} {l : Proc} (h : l.Continues full w)
    (hsame : ∀ id, l.midway full = some id → w'.reached id = w.reached id) : l.Continues full w' where
  reached id hid := by
    rw [hsame id hid]
    exact h.reached id hid
  new id hid := by
    rw [hsame id hid]
    exact h.new id hid

/-- Two deliveries of one request are never both midway. -/
def Unshared (full : JsString → List Letter) (l l' : Proc) : Prop :=
  ∀ id, l.midway full = some id → l'.midway full ≠ some id

theorem full_nodup {w : World} {l : Proc} (hown : l.Writes full w) {req : Request} (hreq : l.req = some req) :
    ((full req.id).map Letter.address).Nodup := by
  obtain ⟨r, -, -, hletters⟩ := hown.req req hreq
  rw [← hletters]
  exact letters_nodup req.row r.audience

/-- A letter goes out: it is new, and so is what is left; nobody else is midway with the request. -/
theorem Proc.Continues.send {w : World} (hshared : Addressed full w) {req : Request}
    {signedPdf certificatePdf : Bytes} {letter : Letter} {rest : List Letter}
    (hown : (Proc.mailing req signedPdf certificatePdf (letter :: rest)).Writes full w)
    (hcontinues : (Proc.mailing req signedPdf certificatePdf (letter :: rest)).Continues full w)
    (hbegins : ∀ d ∈ w.firstLetter req (letter :: rest), d.begins = true) :
    letter.address ∉ w.reached req.id ∧
      (∀ letter' ∈ rest, letter'.address ≠ letter.address ∧ letter'.address ∉ w.reached req.id) ∧
      ∀ l : Proc, l.Continues full w →
        Unshared full (.mailing req signedPdf certificatePdf (letter :: rest)) l →
        l.midway full ≠ some req.id := by
  have hother : ∀ letter' ∈ rest, letter'.address ≠ letter.address := by
    intro letter' hletter' heq
    have hsub := (hown.rest req _ rfl).sublist.map Letter.address
    have hnodup := hsub.nodup (full_nodup hown rfl)
    rw [List.map_cons, List.nodup_cons] at hnodup
    exact hnodup.1 (List.mem_map.mpr ⟨letter', hletter', heq⟩)
  rcases firstLetter_eq hshared hown rfl rfl with ⟨-, hemits⟩ | ⟨hmidway, -⟩
  · -- The delivery begins, and nothing has gone out.
    have hnone : w.reached req.id = [] := by
      rw [hemits] at hbegins
      simpa [Delivery.begins, World.reached] using hbegins _ (List.mem_singleton.mpr rfl)
    rw [hnone]
    exact ⟨List.not_mem_nil, fun letter' hletter' => ⟨hother letter' hletter', List.not_mem_nil⟩,
      fun l hl _ hid => hl.reached req.id hid hnone⟩
  · have hnew := hcontinues.new req.id hmidway req _ rfl
    exact ⟨hnew letter (by simp), fun letter' hletter' => ⟨hother letter' hletter', hnew letter' (by simp [hletter'])⟩,
      fun l _ hunshared => hunshared req.id hmidway⟩

theorem midway_of_sent {req : Request} {signedPdf certificatePdf : Bytes} {rest : List Letter} {l' : Proc}
    (h : l' = .mailing req signedPdf certificatePdf rest ∨ l' = .failed) {id : JsString}
    (hid : l'.midway full = some id) : id = req.id ∧ l'.letters = some (req, rest) := by
  rcases h with rfl | rfl
  · refine ⟨?_, rfl⟩
    simp only [Proc.midway, Proc.letters] at hid
    split at hid
    · exact (Option.some.inj hid).symm
    · cases hid
  · cases hid

theorem onceOutline (full : JsString → List Letter) (cfg : Worker C) :
    ProofOutline (completion cfg)
      (fun s l => (True ∧ Emits deliveries (fun d => d.begins = true) s l) ∧ Writing full s) MailedOnce
      (fun w _ l => l.Continues full w) (Unshared full) where
  act := by
    rintro s p c sh l' hs ⟨⟨-, hbegins⟩, hwriting⟩ hact
    have hstep := act_deliveryStep (p := p) hact
    have hcontinues := hs.proc p
    have hwrites := hwriting.proc p
    have hpairs : ∀ q, q ≠ p → Unshared full (s.procs p) (s.procs q) := fun q hq => hs.pair p q hq.symm
    simp only [Emits] at hbegins
    generalize s.procs p = l at hstep hcontinues hwrites hbegins hpairs
    generalize deliveries p c s.shared l = new at hstep hbegins
    -- Where the process that moves is not midway after its step, it is apart from everybody.
    have hapart : l'.midway full = none → ∀ q, q ≠ p → Unshared full l' (s.procs q) ∧
        Unshared full (s.procs q) l' := by
      intro hnone q _
      refine ⟨fun id hid => ?_, fun id _ hid => ?_⟩ <;>
        · rw [hnone] at hid
          cases hid
    cases hstep with
    | opens req signedPdf certificatePdf =>
        have hnone := midway_of_opens hwriting.shared hwrites
        exact ⟨hs.shared, .of_none hnone, fun q _ => hs.proc q, hapart hnone⟩
    | quiet l w' l' hrows hmailed hletters hreq =>
        have hnone : l'.midway full = none := Proc.midway_of_letters hletters
        have hsame := reached_of_mailed hmailed
        refine ⟨fun id => ?_, .of_none hnone, fun q _ => (hs.proc q).of_reached fun id _ => hsame id,
          hapart hnone⟩
        rw [hsame]
        exact hs.shared id
    | sends req signedPdf certificatePdf letter rest l' hl' =>
        obtain ⟨hnew, hrest, hothers⟩ := hcontinues.send hwriting.shared hwrites hbegins
        have hself := reached_send_self s.shared req signedPdf certificatePdf letter
        have hmidway : ∀ q, q ≠ p → (s.procs q).midway full ≠ some req.id :=
          fun q hq => hothers _ (hs.proc q) (hpairs q hq)
        refine ⟨fun id => ?_, ⟨fun id hid => ?_, fun id hid req' rest' hletters letter' hletter' => ?_⟩,
          fun q hq => (hs.proc q).of_reached fun id hid => ?_, fun q hq => ⟨fun id hid => ?_, fun id hid => ?_⟩⟩
        · by_cases hid : req.id = id
          · subst hid
            rw [hself]
            exact List.nodup_cons.mpr ⟨hnew, hs.shared req.id⟩
          · rw [reached_send_other s.shared hid]
            exact hs.shared id
        · obtain ⟨rfl, -⟩ := midway_of_sent hl' hid
          rw [hself]
          exact List.cons_ne_nil _ _
        · obtain ⟨rfl, hrest'⟩ := midway_of_sent hl' hid
          obtain ⟨rfl, rfl⟩ := Prod.mk.inj (Option.some.inj (hletters.symm.trans hrest'))
          obtain ⟨hne, hunreached⟩ := hrest letter' hletter'
          rw [hself, List.mem_cons, not_or]
          exact ⟨hne, hunreached⟩
        · refine reached_send_other s.shared (fun heq => ?_) _ _ _
          exact hmidway q hq (heq ▸ hid)
        · obtain ⟨rfl, -⟩ := midway_of_sent hl' hid
          exact hmidway q hq
        · intro hid'
          obtain ⟨rfl, -⟩ := midway_of_sent hl' hid'
          exact hmidway q hq hid
  env := by
    rintro s e sh hs - henv
    have hsame := reached_of_mailed (env_parties henv).2
    refine ⟨fun id => ?_, fun q => (hs.proc q).of_reached fun id _ => hsame id⟩
    rw [hsame]
    exact hs.shared id

end Parties

/-- **Nobody is mailed two copies of one request** exactly when every delivery that hands over its first
letter does so before any copy of the request has gone out: whatever runs, retries, failures and deaths
there are. -/
theorem mailed_once_iff {cfg : Worker C} {now : Int} {requests : List Request} {storage : Storage}
    {s : System (Logged World Delivery) Proc} (hids : (requests.map Request.id).Nodup)
    (hs : Reaches (deliveringRuns cfg) (fun _ _ => True) (start now requests storage).logging s) :
    MailedOnce s.shared.state ↔ ∀ d ∈ s.shared.log, d.begins = true := by
  obtain ⟨full, hstart⟩ := writesHolds_start now storage hids
  constructor
  · intro hgood d hd
    by_contra hlate
    have hassumed := Reaches.assume (fun _ _ => True)
      ((writesOutline full cfg fun _ _ => True).holds_step) hs hstart
    have hrepeats := ((repeatsOutline full cfg).holds_of_reaches hassumed
      ⟨⟨fun id h => absurd rfl h, fun d hd => absurd hd List.not_mem_nil⟩, fun _ _ hid => (by cases hid),
        fun _ _ _ => trivial⟩).shared
    exact hrepeats.again d hd (Bool.eq_false_iff.mpr hlate) (hgood d.requestId)
  · intro hbegins
    have hemitting := Reaches.emitting (fun _ _ => True) hs hbegins
    have hassumed := Reaches.strengthen
      ((writesOutline full cfg fun s l => True ∧ Emits deliveries (fun d => d.begins = true) s l).holds_step)
      hemitting hstart
    exact ((onceOutline full cfg).holds_of_reaches hassumed
      ⟨fun id => List.nodup_nil, fun p => .of_none rfl, fun _ _ _ _ hid => (by cases hid)⟩).shared

/-! ## A delivery cut short, and two at once -/

/-- Replay a schedule on an envelope of two signers, with the deliveries on record. -/
def deliverExample (schedule : List (Label Choice Event)) : Option (System (Logged World Delivery) Proc) :=
  (deliveringRuns exampleWorker).run
    (start 4 [exampleRequest 2] (exampleStorage [1, 2, 3] [4, 5])).logging schedule

/-- The job of the queue mails both, and the reconciler finds nothing to do. -/
theorem mailed_once_in_turn :
    ∃ s, deliverExample (call 0 :: steps 0 15 ++ call 1 :: steps 1 1) = some s ∧
      s.shared.state.mailed.length = 2 ∧ MailedOnce s.shared.state := by
  have hrun : ((deliverExample (call 0 :: steps 0 15 ++ call 1 :: steps 1 1)).map fun s =>
      (s.shared.state.mailed.length, s.shared.log.all Delivery.begins)) = some (2, true) := by
    decide +kernel
  obtain ⟨s, hs, heq⟩ := Option.map_eq_some_iff.mp hrun
  obtain ⟨htwo, hbegins⟩ := Prod.mk.inj heq
  have hreaches : Reaches (deliveringRuns exampleWorker) (fun _ _ => True) _ s :=
    Reaches.of_run (fun _ _ _ => trivial) hs
  exact ⟨s, hs, htwo, (mailed_once_iff (by decide) hreaches).mpr (List.all_eq_true.mp hbegins)⟩

/-- The second mail fails, and the retry begins with the first again; and the reconciler comes while the
job is still mailing. -/
theorem mailed_twice :
    (∃ s, deliverExample (call 0 :: steps 0 12 ++ .proc 0 (.fail false) :: call 0 :: steps 0 7) = some s ∧
        ¬ MailedOnce s.shared.state) ∧
    ∃ s, deliverExample (call 0 :: steps 0 12 ++ call 1 :: steps 1 5 ++ steps 0 1) = some s ∧
        ¬ MailedOnce s.shared.state := by
  have hfailed : ((deliverExample (call 0 :: steps 0 12 ++ .proc 0 (.fail false) :: call 0 ::
      steps 0 7)).map fun s => s.shared.state.reached (js "r1")) =
      some [js "b@example.uz", js "a@example.uz", js "a@example.uz"] := by
    decide +kernel
  have hoverlap : ((deliverExample (call 0 :: steps 0 12 ++ call 1 :: steps 1 5 ++ steps 0 1)).map fun s =>
      s.shared.state.reached (js "r1")) =
      some [js "b@example.uz", js "b@example.uz", js "a@example.uz", js "a@example.uz"] := by
    decide +kernel
  obtain ⟨s, hs, hreached⟩ := Option.map_eq_some_iff.mp hfailed
  obtain ⟨s', hs', hreached'⟩ := Option.map_eq_some_iff.mp hoverlap
  refine ⟨⟨s, hs, fun hgood => ?_⟩, s', hs', fun hgood => ?_⟩
  · have hnodup := hgood (js "r1")
    rw [hreached] at hnodup
    exact absurd hnodup (by decide)
  · have hnodup := hgood (js "r1")
    rw [hreached'] at hnodup
    exact absurd hnodup (by decide)

end ESignSoft.Sealing
