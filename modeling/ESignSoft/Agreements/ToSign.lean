import ESignSoft.Agreements.Views
import ESignSoft.Envelope.Steps

/-!
# What waits for my signature

An envelope keeps the address of the first signer its sender listed, and never changes it.  To Sign goes by
that address alone, whoever has been invited and whoever has signed.

* `Addressed` — the address on an envelope is that of its first signer, and no two recipients share one;
* `to_sign_iff` — To Sign shows exactly what waits for me as long as everything I am asked to sign lists me
  first, and whatever lists me first asks me to sign;
* `second_signer_not_shown` — two signers are invited, and the second is shown nothing.
-/

namespace ESignSoft.Agreements

open ESignSoft.Lib ESignSoft.Lib.JsText ESignSoft.Lib.Table ESignSoft.Lib.Interleaving
open ESignSoft.Contracts ESignSoft.Envelope

/-! ## Addresses -/

/-- Lower-case addresses tell the recipients apart, and the envelope has the first signer's. -/
structure Addressed (db : Db) : Prop where
  emails : (db.recipients.map fun r => toLowerCase r.email).Nodup
  first : ∀ request, db.request = some request →
    (db.recipients.find? fun r => r.role == .signer).map Recipient.email = some request.recipientEmail

/-- The first signer of the rows is the one of the request they are made from. -/
theorem find_newRecipients (input : SendRequest) (tokens : JsString → Option Nat) (now : Int) :
    ((newRecipients input tokens now).find? fun r => r.role == .signer).map Recipient.email =
      (input.recipients.find? fun r => r.role == .signer).map SendRecipient.email := by
  conv_rhs => rw [← List.zipIdx_map_fst 0 input.recipients]
  rw [newRecipients, List.find?_map, List.find?_map, Option.map_map, Option.map_map]
  rfl

theorem addressed_send {cfg : Config} {template : Option Template} {input : SendRequest}
    {senderName : Option JsString} {now : Int} {sending : Sending}
    (hinput : SendRequestSchema cfg.platform input = true)
    (hsend : send cfg template input senderName now = .ok sending) : Addressed sending.db := by
  obtain ⟨t, firstSigner, -, -, -, hfirst, rfl⟩ := send_inv hsend
  generalize (mintTokens (inviteNow input) input.recipients).1 = tokens
  constructor
  case emails =>
    rw [map_newRecipients input tokens now _ (fun r => toLowerCase r.email) fun _ _ => rfl]
    exact SendRequestSchema.lower_emails_nodup hinput
  case first =>
    intro request hrequest
    obtain rfl := Option.some.inj hrequest
    -- The schema wants a signer, so it is never the first of the copies.
    obtain ⟨signer, hsigner⟩ := SendRequestSchema.exists_firstSigner hinput
    rw [hsigner, Option.some_or] at hfirst
    obtain rfl := Option.some.inj hfirst
    rw [find_newRecipients, hsigner]
    rfl

theorem Addressed.write {db : Db} (h : Addressed db) (write : Write) : Addressed (db.write write) := by
  rcases write_recipients write db with ⟨hnil, rfl⟩ | ⟨hmap, -⟩
  · exact ⟨List.nodup_nil, fun request hrequest => by cases hrequest⟩
  · constructor
    case emails =>
      rw [hmap, List.map_map]
      simpa only [Function.comp_def, onRecipient_email] using h.emails
    case first =>
      intro request' hrequest
      obtain ⟨request, hold, rfl⟩ := exists_of_write_request hrequest
      rw [hmap, List.find?_map, Option.map_map, onRequest_recipientEmail, ← h.first request hold]
      simp only [Function.comp_def, onRecipient_role, onRecipient_email]

theorem addressed_of_reaches {cfg : Config} {ok : System World Proc → Label Choice Event → Prop}
    {s s' : System World Proc} (hs : Reaches (service cfg) ok s s') (h : Addressed s.shared.db) :
    Addressed s'.shared.db := by
  refine Reaches.invariant (I := fun s => Addressed s.shared.db) ?_ hs h
  intro s l s' haddressed _ hstep
  rcases step_rows hstep with ⟨p, write, k, -, -, hcommit⟩ | hsame
  · rw [hcommit]
    exact haddressed.write write
  · rw [hsame.db]
    exact haddressed

/-! ## Workspaces -/

/-- An envelope as the services may have left it, at any point after it was sent. -/
def Reachable (cfg : Config) (row : EnvelopeRow) : Prop :=
  ∃ template input senderName now sending s,
    SendRequestSchema cfg.platform input = true ∧ send cfg template input senderName now = .ok sending ∧
      Reaches (service cfg) (fun _ _ => True) (start sending now) s ∧
      s.shared.db = ⟨some row.request, row.recipients⟩

/-- The envelopes of a workspace, deleted ones included. -/
structure Workspace (cfg : Config) where
  rows : List EnvelopeRow
  ids : (rows.map EnvelopeRow.id).Nodup
  reachable : ∀ row ∈ rows, Reachable cfg row

theorem Reachable.addressed {cfg : Config} {row : EnvelopeRow} (h : Reachable cfg row) :
    Addressed ⟨some row.request, row.recipients⟩ := by
  obtain ⟨template, input, senderName, now, sending, s, hinput, hsend, hs, hdb⟩ := h
  rw [← hdb]
  exact addressed_of_reaches hs (addressed_send hinput hsend)

def EnvelopeRow.firstSigner (row : EnvelopeRow) : Option Recipient :=
  row.recipients.find? fun r => r.role == .signer

/-- One of the signers has that address, was invited and has not completed. -/
def Awaits (row : EnvelopeRow) (me : JsString) : Prop :=
  ∃ r ∈ row.recipients, r.role = .signer ∧ toLowerCase r.email = me ∧ r.open_ = true

/-- To Sign has the live envelopes of a workspace that await somebody's signature. -/
def ToSignRight (rows listed : List EnvelopeRow) (me : JsString) : Prop :=
  ∀ row ∈ rows, row.request.open_ = true → row.deletedAt = none →
    ((∃ w ∈ selectRows .toSign (list listed) (some me), w.id = row.id) ↔ Awaits row me)

/-- What To Sign takes for granted of a signer.  The first signer of an envelope that is listed does not wait
for a turn, and once done leaves nobody undone; nobody else is asked to sign. -/
structure TakenForGranted (listed : List EnvelopeRow) (row : EnvelopeRow) (r : Recipient) : Prop where
  first : row ∈ listed → row.firstSigner = some r →
    r.status ≠ .pending ∧ (r.status = .completed → AllSigned row.recipients)
  other : ¬ (row ∈ listed ∧ row.firstSigner = some r) → r.open_ = false

/-! ## One envelope -/

/-- An address is the address of one recipient at most. -/
theorem Addressed.eq_of_email {db : Db} (h : Addressed db) {q r : Recipient} (hq : q ∈ db.recipients)
    (hr : r ∈ db.recipients) (hsame : toLowerCase q.email = toLowerCase r.email) : q = r :=
  eq_of_key_eq h.emails hq hr hsame

/-- The envelope has the address of a first signer. -/
theorem exists_firstSigner {row : EnvelopeRow} (h : Addressed ⟨some row.request, row.recipients⟩) :
    ∃ f ∈ row.recipients, row.firstSigner = some f ∧ f.role = .signer ∧ f.email = row.request.recipientEmail := by
  obtain ⟨f, hf, hemail⟩ := Option.map_eq_some_iff.mp (h.first row.request rfl)
  have hrole : f.role = .signer := by simpa using List.find?_some hf
  exact ⟨f, List.mem_of_find?_eq_some hf, hf, hrole, hemail⟩

/-- Who has the address of the envelope is its first signer. -/
theorem firstSigner_iff {row : EnvelopeRow} (h : Addressed ⟨some row.request, row.recipients⟩) {r : Recipient}
    (hr : r ∈ row.recipients) :
    row.firstSigner = some r ↔ toLowerCase row.request.recipientEmail = toLowerCase r.email := by
  obtain ⟨f, hmem, hf, -, hemail⟩ := exists_firstSigner h
  rw [hf, ← hemail, Option.some.injEq]
  constructor
  · rintro rfl
    rfl
  · exact h.eq_of_email hmem hr

theorem awaits_iff {row : EnvelopeRow} (h : Addressed ⟨some row.request, row.recipients⟩) {r : Recipient}
    (hr : r ∈ row.recipients) (hrole : r.role = .signer) : Awaits row (toLowerCase r.email) ↔ r.open_ = true := by
  constructor
  · rintro ⟨q, hq, -, hsame, hopen⟩
    obtain rfl := h.eq_of_email hq hr hsame
    exact hopen
  · exact fun hopen => ⟨r, hr, hrole, rfl, hopen⟩

theorem shownToSign_iff {row : EnvelopeRow} (h : Addressed ⟨some row.request, row.recipients⟩)
    (hlive : row.request.open_ = true) (halive : row.deletedAt = none) {r : Recipient} (hr : r ∈ row.recipients) :
    ShownToSign (toLowerCase r.email) row ↔ row.firstSigner = some r ∧ ¬ AllSigned row.recipients := by
  rw [firstSigner_iff h hr]
  constructor
  · exact fun hshown => ⟨hshown.mine, hshown.unfinished⟩
  · exact fun ⟨hmine, hunfinished⟩ => ⟨halive, hmine, hlive, hunfinished⟩

/-- Where somebody has yet to sign, a signer is asked to unless the turn is others' or was one's own. -/
theorem unfinished_iff_open_iff {row : EnvelopeRow} {r : Recipient} (hr : r ∈ row.recipients)
    (hrole : r.role = .signer) :
    (¬ AllSigned row.recipients ↔ r.open_ = true) ↔
      r.status ≠ .pending ∧ (r.status = .completed → AllSigned row.recipients) := by
  have hunfinished : r.status ≠ .completed → ¬ AllSigned row.recipients := fun hopen hall => hopen (hall r hr hrole)
  rw [Recipient.open_iff]
  cases hstatus : r.status with
  | pending => simp [hunfinished (by simp [hstatus])]
  | sent | viewed => simp [hunfinished (by simp [hstatus])]
  | completed => simp

/-- To Sign is right about a signer exactly when what it takes for granted holds. -/
theorem shown_iff_awaits {listed : List EnvelopeRow} {row : EnvelopeRow}
    (h : Addressed ⟨some row.request, row.recipients⟩) (hlive : row.request.open_ = true)
    (halive : row.deletedAt = none) {r : Recipient} (hr : r ∈ row.recipients) (hrole : r.role = .signer) :
    (row ∈ listed ∧ ShownToSign (toLowerCase r.email) row ↔ Awaits row (toLowerCase r.email)) ↔
      TakenForGranted listed row r := by
  rw [shownToSign_iff h hlive halive hr, awaits_iff h hr hrole, ← and_assoc]
  by_cases hfirst : row ∈ listed ∧ row.firstSigner = some r
  · rw [and_iff_right hfirst, unfinished_iff_open_iff hr hrole]
    constructor
    · exact fun hgranted => ⟨fun _ _ => hgranted, fun hnot => absurd hfirst hnot⟩
    · exact fun htaken => htaken.first hfirst.1 hfirst.2
  · have hnot : ¬ ((row ∈ listed ∧ row.firstSigner = some r) ∧ ¬ AllSigned row.recipients) :=
      fun hboth => hfirst hboth.1
    rw [iff_false_left hnot, Bool.not_eq_true]
    constructor
    · exact fun hclosed => ⟨fun hmem hsame => absurd ⟨hmem, hsame⟩ hfirst, fun _ => hclosed⟩
    · exact fun htaken => htaken.other hfirst

/-- To Sign is right about whoever does not sign. -/
theorem not_shown_of_no_signer {row : EnvelopeRow} {me : JsString}
    (h : Addressed ⟨some row.request, row.recipients⟩)
    (hnone : ∀ r ∈ row.recipients, r.role = .signer → toLowerCase r.email ≠ me) :
    ¬ ShownToSign me row ∧ ¬ Awaits row me := by
  constructor
  · intro hshown
    obtain ⟨f, hmem, -, hrole, hemail⟩ := exists_firstSigner h
    exact hnone f hmem hrole (hemail ▸ hshown.mine)
  · rintro ⟨r, hr, hrole, hsame, -⟩
    exact hnone r hr hrole hsame

/-! ## Every workspace -/

/-- **To Sign** is right about a workspace and an address exactly when what is taken for granted holds of every
signer with that address. -/
theorem to_sign_iff {cfg : Config} (workspace : Workspace cfg) {listed : List EnvelopeRow}
    (hlisted : Listed workspace.rows listed) (me : JsString) :
    ToSignRight workspace.rows listed me ↔
      ∀ row ∈ workspace.rows, row.request.open_ = true → row.deletedAt = none →
        ∀ r ∈ row.recipients, r.role = .signer → toLowerCase r.email = me → TakenForGranted listed row r := by
  have hsub : listed ⊆ workspace.rows := hlisted.subperm.subset
  refine forall₂_congr fun row hrow => forall₂_congr fun hlive halive => ?_
  have hshown : (∃ w ∈ selectRows .toSign (list listed) (some me), w.id = row.id) ↔
      row ∈ listed ∧ ShownToSign me row := by
    rw [mem_toSign_iff]
    constructor
    · rintro ⟨q, hq, hid, hshown⟩
      obtain rfl := eq_of_key_eq workspace.ids (hsub hq) hrow hid
      exact ⟨hq, hshown⟩
    · rintro ⟨hmem, hshown⟩
      exact ⟨row, hmem, rfl, hshown⟩
  rw [hshown]
  have haddressed := (workspace.reachable row hrow).addressed
  by_cases hmine : ∃ r ∈ row.recipients, r.role = .signer ∧ toLowerCase r.email = me
  · obtain ⟨r, hr, hrole, rfl⟩ := hmine
    rw [shown_iff_awaits haddressed hlive halive hr hrole]
    constructor
    · intro htaken q hq _ hsame
      obtain rfl := haddressed.eq_of_email hq hr hsame
      exact htaken
    · exact fun hall => hall r hr hrole rfl
  · have hnone : ∀ r ∈ row.recipients, r.role = .signer → toLowerCase r.email ≠ me :=
      fun r hr hrole hsame => hmine ⟨r, hr, hrole, hsame⟩
    obtain ⟨hnot, hawaits⟩ := not_shown_of_no_signer haddressed hnone
    refine iff_of_true (iff_of_false (fun hboth => hnot hboth.2) hawaits) ?_
    exact fun r hr hrole hsame => absurd hsame (hnone r hr hrole)

/-! ## Two signers -/

/-- An envelope that was just sent to `a` and others, all to sign in parallel. -/
def sentTo (recipients : List SendRecipient) : EnvelopeRow where
  id := js "0b6c2f0e-7b0f-4a5e-9d55-2f1f8a4f6c11"
  request := newRequest exampleConfig exampleTemplate (exampleInput .parallel recipients) none
    (exampleRecipient "a" .signer 1) 0
  recipients := newRecipients (exampleInput .parallel recipients)
    (mintTokens (inviteNow (exampleInput .parallel recipients)) recipients).1 0
  folderId := none
  folderName := none
  deletedAt := none
  signedPdfKey := none

theorem reachable_sentTo {recipients : List SendRecipient}
    (hinput : SendRequestSchema exampleConfig.platform (exampleInput .parallel recipients) = true)
    (htagged : (recipients.find? fun r =>
      r.role == .signer && !(exampleTemplate.fields.any fun f => f.recipientKey == r.recipientKey)) = none)
    (hfirst : (recipients.find? fun r => r.role == .signer) = some (exampleRecipient "a" .signer 1)) :
    Reachable exampleConfig (sentTo recipients) := by
  have hsame : (exampleInput .parallel recipients).recipients = recipients := rfl
  have hassert : assertSignersAreTagged (exampleInput .parallel recipients) exampleTemplate.fields = .ok () := by
    unfold assertSignersAreTagged
    rw [hsame, htagged]
  have hsend : ∃ sending, send exampleConfig (some exampleTemplate) (exampleInput .parallel recipients) none 0 =
      .ok sending ∧ sending.db = ⟨some (sentTo recipients).request, (sentTo recipients).recipients⟩ := by
    unfold send
    dsimp only
    rw [if_neg (by decide), hassert, hsame, hfirst]
    exact ⟨_, rfl, rfl⟩
  obtain ⟨sending, hok, hdb⟩ := hsend
  exact ⟨some exampleTemplate, exampleInput .parallel recipients, none, 0, sending, start sending 0, hinput, hok,
    Reaches.refl _, hdb⟩

/-- A workspace with that one envelope. -/
def sentOnly (recipients : List SendRecipient) (h : Reachable exampleConfig (sentTo recipients)) :
    Workspace exampleConfig where
  rows := [sentTo recipients]
  ids := List.nodup_singleton _
  reachable := fun row hrow => by rwa [List.mem_singleton.mp hrow]

theorem listed_singleton (row : EnvelopeRow) : Listed [row] [row] :=
  ⟨[row], List.Perm.refl _, List.pairwise_singleton _ _, rfl⟩

/-- The only signer of the only envelope finds it in To Sign. -/
theorem to_sign_one :
    ∃ workspace : Workspace exampleConfig, ToSignRight workspace.rows workspace.rows (js "a@sign.uz") ∧
      ∃ row ∈ workspace.rows, row.request.open_ = true ∧ Awaits row (js "a@sign.uz") := by
  have hreach : Reachable exampleConfig (sentTo [exampleRecipient "a" .signer 1]) :=
    reachable_sentTo (by decide +kernel) (by decide +kernel) rfl
  obtain ⟨r, hrow, hfirst, hrole, hemail, hstatus⟩ : ∃ r,
      (sentTo [exampleRecipient "a" .signer 1]).recipients = [r] ∧
        (sentTo [exampleRecipient "a" .signer 1]).firstSigner = some r ∧ r.role = .signer ∧
        toLowerCase r.email = js "a@sign.uz" ∧ r.status = .sent :=
    ⟨_, rfl, rfl, rfl, by decide +kernel, rfl⟩
  refine ⟨sentOnly _ hreach, (to_sign_iff _ (listed_singleton _) _).mpr ?_, ?_⟩
  · intro row hmem _ _ q hq _ _
    obtain rfl := List.mem_singleton.mp hmem
    rw [hrow] at hq
    obtain rfl := List.mem_singleton.mp hq
    exact ⟨fun _ _ => by simp [hstatus], fun hnot => absurd ⟨hmem, hfirst⟩ hnot⟩
  · refine ⟨_, List.mem_cons_self, rfl, r, ?_, hrole, hemail, Recipient.open_iff.mpr (Or.inl hstatus)⟩
    rw [hrow]
    exact List.mem_cons_self

/-- Of two signers who are both asked to sign, the second finds nothing in To Sign. -/
theorem second_signer_not_shown :
    ¬ ∀ (cfg : Config) (workspace : Workspace cfg) (listed : List EnvelopeRow) (me : JsString),
      Listed workspace.rows listed → ToSignRight workspace.rows listed me := by
  intro h
  have hreach : Reachable exampleConfig (sentTo [exampleRecipient "a" .signer 1, exampleRecipient "b" .signer 1]) :=
    reachable_sentTo (by decide +kernel) (by decide +kernel) rfl
  obtain ⟨r, hr, hrole, hemail, hstatus⟩ : ∃ r,
      r ∈ (sentTo [exampleRecipient "a" .signer 1, exampleRecipient "b" .signer 1]).recipients ∧ r.role = .signer ∧
        toLowerCase r.email = js "b@sign.uz" ∧ r.status = .sent :=
    ⟨_, List.mem_cons_of_mem _ List.mem_cons_self, rfl, by decide +kernel, rfl⟩
  have hright := h exampleConfig (sentOnly _ hreach) _ (js "b@sign.uz") (listed_singleton _) _ List.mem_cons_self
    rfl rfl
  have hshown := hright.mpr ⟨r, hr, hrole, hemail, Recipient.open_iff.mpr (Or.inl hstatus)⟩
  -- The envelope has the address of `a`.
  obtain ⟨row, hrow, -, hshown⟩ := mem_toSign_iff.mp hshown
  obtain rfl := List.mem_singleton.mp hrow
  exact absurd hshown.mine (by decide +kernel)

end ESignSoft.Agreements
