import ESignSoft.Envelope.Finished
import ESignSoft.Sealing.OneSeal
import Mathlib.Data.Countable.Basic
import Mathlib.Data.Rat.Encodable
import Mathlib.Logic.Equiv.List
import Mathlib.Tactic.DeriveCountable

/-!
# The marks in a sealed document

A run of the pipeline reads the envelope's row, later its recipients, and stamps the source document
once for each signer whose signature is on file.  What a saved document shows is the PDF library's
matter: it is read off the bytes by a function of which two things are known, and nothing else.

* `stamps_of_reaches` — the sealed document is the source with every pass drawn into it;
* `marked_iff_markable` — a signer's mark is in it exactly when a box for it is among their fields, on
  a page of the document;
* `every_signer_marked_iff` — all who are named on the certificate have their mark, in the runs where no
  resend hits a completed row, exactly when each has such a box;
* `certified_without_mark` — an accepted send that ends without one.
-/

namespace ESignSoft.Sealing

open ESignSoft.Lib.JsText ESignSoft.Lib.Table ESignSoft.Lib.Interleaving
open ESignSoft.Contracts ESignSoft.Signing ESignSoft.Envelope

variable {C : NodeCrypto}

/-! ## Drawing -/

/-- The library keeps the pages, and what is drawn comes after what was there; `shown` reads the images
with their stamps off a document. -/
structure Worker.Draws (cfg : Worker C) (shown : Bytes → List (Bytes × Stamp)) : Prop where
  pages : ∀ save pdf png stamps pages, cfg.loadPdf pdf = some pages →
    cfg.loadPdf (cfg.savePdf save pdf png stamps) = some pages
  shown : ∀ save pdf png stamps, shown (cfg.savePdf save pdf png stamps) =
    shown pdf ++ stamps.map fun st => (png, st)

/-- The document after these passes, each with the image on file. -/
inductive Worker.Stamps (cfg : Worker C) (storage : Storage) (source : Bytes) : List Pass → Bytes → Prop
  | nil : Worker.Stamps cfg storage source [] source
  | snoc {done : List Pass} {pass : Pass} {pdf png stamped : Bytes} {save : Nat}
      (h : Worker.Stamps cfg storage source done pdf) (hpng : storage (.image pass.imageKey) = some png)
      (hstamp : cfg.stampPdf save pdf pass.fields pass.values png = some stamped) :
      Worker.Stamps cfg storage source (done ++ [pass]) stamped

theorem Worker.Stamps.storage {cfg : Worker C} {storage storage' : Storage} {source pdf : Bytes}
    {done : List Pass} (h : cfg.Stamps storage source done pdf)
    (hext : ∀ key body, storage key = some body → storage' key = some body) :
    cfg.Stamps storage' source done pdf := by
  induction h with
  | nil => exact Worker.Stamps.nil
  | snoc _ hpng hstamp ih => exact Worker.Stamps.snoc ih (hext _ _ hpng) hstamp

theorem Worker.stampPdf_eq_some {cfg : Worker C} {save : Nat} {pdf png stamped : Bytes}
    {fields : List TemplateField} {values : Values}
    (h : cfg.stampPdf save pdf fields values png = some stamped) :
    ∃ pages tools stamps, cfg.loadPdf pdf = some pages ∧
      Signing.stampPdf tools pages fields values = .ok stamps ∧
      stamped = cfg.savePdf save pdf png stamps := by
  unfold Worker.stampPdf at h
  split at h
  · rename_i pages tools hpages htools
    split at h
    · rename_i stamps hstamps
      exact ⟨pages, tools, stamps, hpages, hstamps, (Option.some.inj h).symm⟩
    · cases h
  · cases h

/-- A pass draws the image into the boxes of its fields. -/
def Pass.Draws (storage : Storage) (pages : List Page) (pass : Pass) (png : Bytes) (st : Stamp) : Prop :=
  storage (.image pass.imageKey) = some png ∧
    ∃ tools stamps, Signing.stampPdf tools pages pass.fields pass.values = .ok stamps ∧ st ∈ stamps

/-- After the passes the document shows what it showed before, and then what each pass drew. -/
theorem Worker.Stamps.shows {cfg : Worker C} {shown : Bytes → List (Bytes × Stamp)}
    (hpdf : cfg.Draws shown) {storage : Storage} {source pdf : Bytes} {done : List Pass}
    (h : cfg.Stamps storage source done pdf) {pages : List Page} (hpages : cfg.loadPdf source = some pages) :
    cfg.loadPdf pdf = some pages ∧
      ∃ drawn, shown pdf = shown source ++ drawn ∧
        (∀ m ∈ drawn, ∃ pass ∈ done, pass.Draws storage pages m.1 m.2) ∧
        ∀ pass ∈ done, ∃ png tools stamps, storage (.image pass.imageKey) = some png ∧
          Signing.stampPdf tools pages pass.fields pass.values = .ok stamps ∧
          ∀ st ∈ stamps, (png, st) ∈ drawn := by
  induction h with
  | nil => exact ⟨hpages, [], by simp, by simp, by simp⟩
  | @snoc done pass pdf png stamped save _ hpng hstamp ih =>
      obtain ⟨hpages', drawn, hshown, honly, hall⟩ := ih
      obtain ⟨pages', tools, stamps, hload, hstamps, rfl⟩ := Worker.stampPdf_eq_some hstamp
      obtain rfl : pages' = pages := Option.some.inj (hload.symm.trans hpages')
      refine ⟨hpdf.pages save pdf png stamps pages' hload, drawn ++ stamps.map fun st => (png, st), ?_,
        ?_, ?_⟩
      · rw [hpdf.shown, hshown, List.append_assoc]
      · intro m hm
        rcases List.mem_append.mp hm with hold | hnew
        · obtain ⟨before, hbefore, hdraws⟩ := honly m hold
          exact ⟨before, List.mem_append_left _ hbefore, hdraws⟩
        · obtain ⟨st, hst, rfl⟩ := List.mem_map.mp hnew
          exact ⟨pass, by simp, hpng, tools, stamps, hstamps, hst⟩
      · intro other hother
        rcases List.mem_append.mp hother with hold | hnew
        · obtain ⟨png', tools', stamps', hpng', hstamps', hdrawn⟩ := hall other hold
          exact ⟨png', tools', stamps', hpng', hstamps', fun st hst =>
            List.mem_append_left _ (hdrawn st hst)⟩
        · obtain rfl := List.mem_singleton.mp hnew
          exact ⟨png, tools, stamps, hpng, hstamps, fun st hst =>
            List.mem_append_right _ (List.mem_map_of_mem hst)⟩

/-! ## A run of the pipeline -/

/-- The document was made from the source on file, by the passes for these rows. -/
def Worker.Made (cfg : Worker C) (storage : Storage) (row : SignatureRequest) (recipients : List Recipient)
    (documentKey : List JsString) (pdf : Bytes) : Prop :=
  ∃ source done, storage (.document documentKey) = some source ∧ passes row recipients = some done ∧
    cfg.Stamps storage source done pdf

/-- Where a run stands that has read these rows. -/
def Worker.Under (cfg : Worker C) (storage : Storage) (row : SignatureRequest) (recipients : List Recipient)
    (documentKey : List JsString) : Proc → Prop
  | .loading _ | .recipientsReading _ _ _ => False
  | .sourceReading req _ documentKey' recipients' =>
      req.row = row ∧ documentKey' = documentKey ∧ recipients' = recipients
  | .stamping _ _ _ _ rest pdf =>
      ∃ source done, storage (.document documentKey) = some source ∧
        passes row recipients = some (done ++ rest) ∧ cfg.Stamps storage source done pdf
  | .storing a _ => cfg.Made storage row recipients documentKey a.signedPdf
  | _ => True

theorem Worker.Under.storage {cfg : Worker C} {storage storage' : Storage} {row : SignatureRequest}
    {recipients : List Recipient} {documentKey : List JsString} {l : Proc}
    (h : cfg.Under storage row recipients documentKey l)
    (hext : ∀ key body, storage key = some body → storage' key = some body) :
    cfg.Under storage' row recipients documentKey l := by
  cases l with
  | stamping req completedAt documentKey' recipients' rest pdf =>
      obtain ⟨source, done, hsource, hpasses, hstamps⟩ := h
      exact ⟨source, done, hext _ _ hsource, hpasses, hstamps.storage hext⟩
  | storing a pending =>
      obtain ⟨source, done, hsource, hpasses, hstamps⟩ := h
      exact ⟨source, done, hext _ _ hsource, hpasses, hstamps.storage hext⟩
  | _ => exact h

/-- The document goes from the last pass to the store as it is. -/
theorem Worker.sealed_signedPdf {cfg : Worker C} {uuids saves : Nat} {req : Request} {completedAt : Int}
    {documentKey : List JsString} {recipients : List Recipient} {pdf : Bytes} {a : Artifacts}
    (h : cfg.sealed uuids saves req completedAt documentKey recipients pdf = some a) :
    a.signedPdf = pdf := by
  unfold Worker.sealed at h
  simp only at h
  split at h
  · obtain rfl := Option.some.inj h
    rfl
  · cases h

theorem Worker.Under.next {cfg : Worker C} {row : SignatureRequest} {recipients : List Recipient}
    {documentKey : List JsString} {w w' : World} {l l' : Proc}
    (h : cfg.Under w.storage row recipients documentKey l) (hnext : next cfg w l = some (w', l')) :
    cfg.Under w.storage row recipients documentKey l' := by
  cases l with
  | idle | done | failed => cases hnext
  | loading id => cases h
  | recipientsReading req completedAt documentKey' => cases h
  | fetching req signedPdfKey certificateKey =>
      simp only [Sealing.next] at hnext
      split at hnext <;> (cases hnext; trivial)
  | sourceReading req completedAt documentKey' recipients' =>
      obtain ⟨rfl, rfl, rfl⟩ := h
      simp only [Sealing.next] at hnext
      split at hnext
      · rename_i source rest hsource hpasses
        cases hnext
        exact ⟨source, [], hsource, hpasses, Worker.Stamps.nil⟩
      · cases hnext
        trivial
  | stamping req completedAt documentKey' recipients' rest pdf =>
      obtain ⟨source, done, hsource, hpasses, hstamps⟩ := h
      cases rest with
      | nil =>
          simp only [Sealing.next] at hnext
          split at hnext
          · cases hnext
            trivial
          · rename_i a hsealed
            cases hnext
            rw [List.append_nil] at hpasses
            have hpdf := Worker.sealed_signedPdf hsealed
            exact ⟨source, done, hsource, hpasses, by rwa [hpdf]⟩
      | cons pass rest =>
          simp only [Sealing.next] at hnext
          split at hnext
          · cases hnext
            trivial
          · rename_i stamped hstamped
            cases hnext
            obtain ⟨png, hpng, hstamp⟩ := Option.bind_eq_some_iff.mp hstamped
            exact ⟨source, done ++ [pass], hsource, by simpa using hpasses, hstamps.snoc hpng hstamp⟩
  | storing a pending =>
      cases pending with
      | nil =>
          cases hnext
          trivial
      | cons first rest =>
          cases hnext
          exact h
  | recording a =>
      simp only [Sealing.next, Option.some.injEq, Prod.mk.injEq] at hnext
      obtain ⟨-, rfl⟩ := hnext
      split <;> trivial
  | delivering req signedPdf certificatePdf =>
      cases hnext
      trivial
  | mailing req signedPdf certificatePdf rest =>
      cases rest with
      | nil =>
          cases hnext
          trivial
      | cons letter rest =>
          cases hnext
          trivial
  | marking req =>
      cases hnext
      trivial

/-- **Where a sealed document comes from.**  A run that has read these rows and gets as far as storing
its artifacts has drawn every pass into the source. -/
theorem stamps_of_reaches (hC : C.Lawful) {cfg : Worker C} {t t' : System World Proc}
    (ht : Holds (Shared cfg.sealService) (fun w _ l => Local cfg.sealService w l) Apart t) {p : Nat}
    {req : Request} {completedAt : Int} {documentKey : List JsString} {recipients : List Recipient}
    (hread : t.procs p = .sourceReading req completedAt documentKey recipients)
    (h : Reaches (completion cfg) (fun _ l => ∀ c, l = .proc p c → c = .next) t t') {a : Artifacts}
    {pending : List (Key × Bytes)} (hstoring : t'.procs p = .storing a pending) :
    cfg.Made t'.shared.storage req.row recipients documentKey a.signedPdf := by
  have hunder : cfg.Under t'.shared.storage req.row recipients documentKey (t'.procs p) := by
    refine Reaches.invariant
      (I := fun u => cfg.Under u.shared.storage req.row recipients documentKey (u.procs p)) ?_
      (Reaches.strengthen (fun u l u' hu _ hstep => (sealingOutline hC cfg).holds_step u l u' hu trivial hstep)
        h ht) ?_
    · rintro u l u' hu ⟨hnext, hholds⟩ hstep
      cases l with
      | proc q c =>
          obtain ⟨sh, l', hact, rfl⟩ := Program.step_proc hstep
          have hev := (act_ok (p := q) hC hholds.shared (hholds.proc q) hact).evolves
          by_cases hq : q = p
          · subst hq
            obtain rfl := hnext c rfl
            simp only [Function.update_self]
            exact (hu.next hact).storage hev.storage
          · have hp : p ≠ q := fun heq => hq heq.symm
            simp only [ne_eq, hp, not_false_eq_true, Function.update_of_ne]
            exact hu.storage hev.storage
      | env e =>
          obtain ⟨sh, henv, rfl⟩ := Program.step_env hstep
          exact hu.storage (env_ok hholds.shared henv).evolves.storage
    · rw [hread]
      exact ⟨rfl, rfl, rfl⟩
  rw [hstoring] at hunder
  exact hunder

/-! ## Whose marks -/

def isImage : Mark → Bool
  | .image .. => true
  | .text .. => false

/-- There is a box for this key's image, on a page of the document. -/
def markable (pages : List Page) (fields : List TemplateField) (recipientKey : JsString) : Bool :=
  fields.any fun f => f.recipientKey == recipientKey && IMAGE_KINDS f.type && (pageOf pages f).isSome

/-- The run has drawn the signer's image into a box of their own group. -/
def Marked (shown : Bytes → List (Bytes × Stamp)) (storage : Storage) (fields : List TemplateField)
    (source pdf : Bytes) (r : Recipient) : Prop :=
  ∃ imageKey png st, r.signatureImageKey = some imageKey ∧ storage (.image imageKey) = some png ∧
    (png, st) ∈ (shown pdf).drop (shown source).length ∧ st.field ∈ fields ∧
    st.field.recipientKey = r.recipientKey ∧ isImage st.mark = true

theorem markable_iff {pages : List Page} {fields : List TemplateField} {key : JsString} :
    markable pages fields key = true ↔
      ∃ f ∈ fields, f.recipientKey = key ∧ IMAGE_KINDS f.type = true ∧ (pageOf pages f).isSome = true := by
  simp only [markable, List.any_eq_true, Bool.and_eq_true, beq_iff_eq, and_assoc]

theorem stampMark_isImage {T : StampTools} {v : Values} {f : TemplateField} {box : Box} {mark : Mark}
    (h : stampMark T v f box = some mark) : isImage mark = IMAGE_KINDS f.type := by
  unfold stampMark at h
  by_cases himage : IMAGE_KINDS f.type = true
  · rw [if_pos himage] at h
    obtain rfl := Option.some.inj h
    exact himage.symm
  · rw [if_neg himage] at h
    rw [Bool.eq_false_iff.mpr himage]
    split at h
    · cases h
    · split_ifs at h <;> (obtain rfl := Option.some.inj h; rfl)

/-- On an envelope whose signers have all signed there is a pass for each, and no other. -/
theorem mem_passes {row : SignatureRequest} {recipients : List Recipient} {done : List Pass}
    (hlegacy : row.signatureImageKey = none)
    (hsigned : ∀ r ∈ recipients, r.role = .signer →
      r.status = .completed ∧ r.signatureImageKey.isSome = true)
    (h : passes row recipients = some done) (pass : Pass) :
    pass ∈ done ↔ ∃ r ∈ recipients, r.role = .signer ∧ ∃ imageKey, r.signatureImageKey = some imageKey ∧
      pass = ⟨row.fields.filter fun f => f.recipientKey == r.recipientKey, r.fieldValues, imageKey⟩ := by
  unfold passes at h
  simp only at h
  split at h
  · rw [hlegacy] at h
    cases h
  · obtain rfl := Option.some.inj h
    simp only [List.mem_filterMap, List.mem_filter, Bool.and_eq_true, beq_iff_eq, Option.map_eq_some_iff]
    constructor
    · rintro ⟨r, ⟨hr, ⟨hrole, -⟩, -⟩, imageKey, hkey, rfl⟩
      exact ⟨r, hr, hrole, imageKey, hkey, rfl⟩
    · rintro ⟨r, hr, hrole, imageKey, hkey, rfl⟩
      exact ⟨r, ⟨hr, ⟨hrole, (hsigned r hr hrole).1⟩, (hsigned r hr hrole).2⟩, imageKey, hkey, rfl⟩

/-- Every signer is named on the certificate. -/
theorem named_on_certificate (row : SignatureRequest) {recipients : List Recipient} {r : Recipient}
    (hr : r ∈ recipients) (hrole : r.role = .signer) :
    ∃ signer ∈ certificateSigners row recipients, signer.email = r.email ∧ signer.name = r.name := by
  have hin : r ∈ recipients.filter fun r => r.role == .signer := by simp [hr, hrole]
  have hne := List.ne_nil_of_mem hin
  simp only [certificateSigners, List.isEmpty_iff, hne, if_false]
  exact ⟨_, List.mem_map_of_mem hin, rfl, rfl⟩

/-- A signer's mark is in the document exactly when there is a box for it. -/
theorem marked_iff_markable {cfg : Worker C} {shown : Bytes → List (Bytes × Stamp)}
    (hpdf : cfg.Draws shown) {storage : Storage} {row : SignatureRequest} {recipients : List Recipient}
    {source pdf : Bytes} {pages : List Page} {done : List Pass}
    (hpages : cfg.loadPdf source = some pages) (hlegacy : row.signatureImageKey = none)
    (hsigned : ∀ r ∈ recipients, r.role = .signer →
      r.status = .completed ∧ r.signatureImageKey.isSome = true)
    (hpasses : passes row recipients = some done) (hstamps : cfg.Stamps storage source done pdf)
    {r : Recipient} (hr : r ∈ recipients) (hrole : r.role = .signer) :
    Marked shown storage row.fields source pdf r ↔ markable pages row.fields r.recipientKey = true := by
  obtain ⟨-, drawn, hshown, honly, hall⟩ := hstamps.shows hpdf hpages
  have hdrawn : (shown pdf).drop (shown source).length = drawn := by
    rw [hshown, List.drop_left]
  rw [markable_iff]
  constructor
  · rintro ⟨imageKey, png, st, -, -, hin, -, hkey, himage⟩
    rw [hdrawn] at hin
    obtain ⟨pass, hpass, -, tools, stamps, hstamps', hst⟩ := honly _ hin
    obtain ⟨q, -, -, key, -, rfl⟩ := (mem_passes hlegacy hsigned hpasses pass).mp hpass
    obtain ⟨f, hf, page, hpage, mark, hmark, rfl⟩ := (mem_stampPdf hstamps' st).mp hst
    exact ⟨f, List.mem_of_mem_filter hf, hkey, (stampMark_isImage hmark).symm.trans himage, by simp [hpage]⟩
  · rintro ⟨f, hf, hkey, hkind, hsome⟩
    obtain ⟨page, hpage⟩ := Option.isSome_iff_exists.mp hsome
    obtain ⟨imageKey, himageKey⟩ := Option.isSome_iff_exists.mp (hsigned r hr hrole).2
    -- The signer's own pass goes over the box.
    have hpass := (mem_passes hlegacy hsigned hpasses _).mpr ⟨r, hr, hrole, imageKey, himageKey, rfl⟩
    obtain ⟨png, tools, stamps, hpng, hstamps', hdraws⟩ := hall _ hpass
    obtain ⟨mark, hmark⟩ : ∃ mark, stampMark tools r.fieldValues f (page.place f) = some mark := by
      unfold stampMark
      rw [if_pos hkind]
      exact ⟨_, rfl⟩
    have hown : f ∈ row.fields.filter fun f => f.recipientKey == r.recipientKey := by simp [hf, hkey]
    have hst : (⟨f, mark⟩ : Stamp) ∈ stamps :=
      (mem_stampPdf hstamps' _).mpr ⟨f, hown, page, hpage, mark, hmark, rfl⟩
    refine ⟨imageKey, png, ⟨f, mark⟩, himageKey, hpng, ?_, hf, hkey, (stampMark_isImage hmark).trans hkind⟩
    rw [hdrawn]
    exact hdraws _ hst

/-! ## The rows it reads -/

@[simp] theorem onRequest_fields (write : Write) (row : SignatureRequest) :
    (write.onRequest row).fields = row.fields := by
  cases write <;> simp only [Write.onRequest, updateRow] <;> split_ifs <;> rfl

theorem onRequest_signatureImageKey {write : Write} (hdirect : write.legacy = false)
    (row : SignatureRequest) : (write.onRequest row).signatureImageKey = row.signatureImageKey := by
  cases write with
  | claimedLegacy hash data => cases hdirect
  | _ => simp only [Write.onRequest, updateRow] <;> split_ifs <;> rfl

@[simp] theorem onRecipient_recipientKey (write : Write) (r : Recipient) :
    (write.onRecipient r).recipientKey = r.recipientKey := by
  have hspec := onRecipient_spec write r
  generalize write.onRecipient r = r' at hspec ⊢
  cases hspec <;> rfl

/-- What an envelope keeps of the template and of its addressees, until the send is rolled back. -/
structure Layout (template : Template) (input : SendRequest) (db : Db) : Prop where
  row : ∀ row, db.request = some row → row.fields = template.fields ∧ row.signatureImageKey = none
  rows : db.recipients = [] ∨
    db.recipients.map (fun r => (r.role, r.recipientKey)) =
      input.recipients.map fun r => (r.role, r.recipientKey)
  deleted : db.request = none → db.recipients = []

theorem Layout.write {template : Template} {input : SendRequest} {db : Db} (h : Layout template input db)
    {write : Write} (hdirect : write.legacy = false) : Layout template input (db.write write) where
  row row' hrow' := by
    obtain ⟨row, hrow, rfl⟩ := exists_of_write_request hrow'
    rw [onRequest_fields, onRequest_signatureImageKey hdirect]
    exact h.row row hrow
  rows := by
    rcases write_recipients write db with ⟨hnil, -⟩ | ⟨hmap, -⟩
    · exact Or.inl hnil
    · rw [hmap, List.map_eq_nil_iff, List.map_map]
      exact h.rows.imp id fun hrows => by simpa [Function.comp_def] using hrows
  deleted hnone := by
    by_cases hdel : write = .deleted
    · rw [hdel]
      rfl
    · cases hrow : db.request with
      | none =>
          rcases write_recipients write db with ⟨hnil, -⟩ | ⟨hmap, -⟩
          · exact hnil
          · rw [hmap, h.deleted hrow]
            rfl
      | some row =>
          rw [write_request hdel hrow] at hnone
          cases hnone

/-- What the envelope's transactions keep for the pipeline, once its row is completed. -/
structure Readable (template : Template) (input : SendRequest) (s : System Envelope.World Envelope.Proc) :
    Prop where
  sound : Sound s
  finished : Holds (fun w : Envelope.World => Finished w.db) (fun w _ l => Concluding w l) (fun _ _ => True) s
  layout : Layout template input s.shared.db

theorem readable_step {cfg : Config} {template : Template} {input : SendRequest}
    (s : System Envelope.World Envelope.Proc) (l : Label Envelope.Choice Envelope.Event)
    (s' : System Envelope.World Envelope.Proc) (h : Readable template input s)
    (hspares : sparesSigned s l = true) (hstep : (service cfg).step s l = some s') :
    Readable template input s' ∧
      ∀ row', s'.shared.db.request = some row' → ∃ row, s.shared.db.request = some row ∧
        (row.status = .completed → row'.status = .completed) := by
  have hsound := sound_step s l s' h.sound hstep
  have hfinished := (finishedOutline cfg).holds_step s l s' h.finished ⟨hspares, h.sound⟩ hstep
  rcases step_rows hstep with ⟨p, write, k, -, hl, hcommit⟩ | hsame
  · have hdirect : write.legacy = false := (h.finished.proc p).direct write k (by rw [hl]; rfl)
    refine ⟨⟨hsound, hfinished, by rw [hcommit]; exact h.layout.write hdirect⟩, fun row' hrow' => ?_⟩
    rw [hcommit] at hrow'
    obtain ⟨row, hrow, rfl⟩ := exists_of_write_request hrow'
    exact ⟨row, hrow, fun hcompleted => (onRequest_final (Or.inl hcompleted)).trans hcompleted⟩
  · refine ⟨⟨hsound, hfinished, by rw [hsame.db]; exact h.layout⟩, ?_⟩
    rw [hsame.db]
    exact fun row hrow => ⟨row, hrow, id⟩

theorem readable_start {cfg : Config} {template : Template} {input : SendRequest}
    {senderName : Option JsString} {now : Int} {sending : Sending}
    (hinput : SendRequestSchema cfg.platform input = true)
    (hsend : send cfg (some template) input senderName now = .ok sending) :
    Readable template input (Envelope.start sending now) where
  sound := sound_start (send_spec hinput hsend) now
  finished := finishedHolds_start (send_spec hinput hsend) now
  layout := by
    obtain ⟨t, firstSigner, tokens, htemplate, hdb⟩ := send_rows hsend
    obtain rfl := Option.some.inj htemplate
    show Layout template input sending.db
    rw [hdb]
    refine ⟨?_, Or.inr (map_newRecipients input tokens now _ _ fun _ _ => rfl), fun h => by cases h⟩
    intro row hrow
    obtain rfl := Option.some.inj hrow
    exact ⟨rfl, rfl⟩

/-- From one state of a run to a later one. -/
theorem readable_of_reaches {cfg : Config} {template : Template} {input : SendRequest}
    {s s' : System Envelope.World Envelope.Proc} (h : Readable template input s)
    (hs : Reaches (service cfg) (fun s l => sparesSigned s l = true) s s') :
    Readable template input s' ∧
      ∀ row', s'.shared.db.request = some row' → ∃ row, s.shared.db.request = some row ∧
        (row.status = .completed → row'.status = .completed) := by
  refine Reaches.invariant (I := fun t => Readable template input t ∧
    ∀ row', t.shared.db.request = some row' → ∃ row, s.shared.db.request = some row ∧
      (row.status = .completed → row'.status = .completed)) ?_ hs ⟨h, fun row hrow => ⟨row, hrow, id⟩⟩
  rintro a l b ⟨hreadable, hrow⟩ hspares hstep
  obtain ⟨hreadable', hrow'⟩ := readable_step a l b hreadable hspares hstep
  refine ⟨hreadable', fun row' hb => ?_⟩
  obtain ⟨mid, ha, hmid⟩ := hrow' row' hb
  obtain ⟨row, hs, hcompleted⟩ := hrow mid ha
  exact ⟨row, hs, fun h => hmid (hcompleted h)⟩

/-- What is read of the recipients of an envelope whose row was completed before: nothing at all, or
signers who have all signed. -/
theorem Readable.signed {template : Template} {input : SendRequest}
    {s s' : System Envelope.World Envelope.Proc} (h' : Readable template input s')
    (hlater : ∀ row', s'.shared.db.request = some row' → ∃ row, s.shared.db.request = some row ∧
      (row.status = .completed → row'.status = .completed)) {row : SignatureRequest}
    (hrow : s.shared.db.request = some row) (hcompleted : row.status = .completed) :
    ∀ r ∈ s'.shared.db.recipients, r.role = .signer →
      r.status = .completed ∧ r.signatureImageKey.isSome = true := by
  intro r hr hrole
  cases hrow' : s'.shared.db.request with
  | none =>
      rw [h'.layout.deleted hrow'] at hr
      cases hr
  | some row' =>
      obtain ⟨row₀, hrow₀, hstays⟩ := hlater row' hrow'
      obtain rfl := Option.some.inj (hrow.symm.trans hrow₀)
      have hsigned := h'.finished.shared.signed row' hrow' (hstays hcompleted) r hr hrole
      exact ⟨hsigned, h'.finished.shared.image r hr hsigned⟩

/-- Each signer read on a completed envelope: whether their mark is in the sealed document. -/
theorem signer_marked_iff {cfg : Config} {template : Template} {input : SendRequest}
    {senderName : Option JsString} {now : Int} {sending : Sending}
    (hinput : SendRequestSchema cfg.platform input = true)
    (hsend : send cfg (some template) input senderName now = .ok sending)
    {s s' : System Envelope.World Envelope.Proc}
    (hs : Reaches (service cfg) (fun s l => sparesSigned s l = true) (Envelope.start sending now) s)
    (hs' : Reaches (service cfg) (fun s l => sparesSigned s l = true) s s')
    (hC : C.Lawful) {worker : Worker C} {shown : Bytes → List (Bytes × Stamp)} (hpdf : worker.Draws shown)
    {t t' : System World Proc}
    (ht : Holds (Shared worker.sealService) (fun w _ l => Local worker.sealService w l) Apart t)
    {p : Nat} {req : Request} {completedAt : Int} {documentKey : List JsString}
    (hrow : s.shared.db.request = some req.row) (hcompleted : req.row.status = .completed)
    (hread : t.procs p = .sourceReading req completedAt documentKey
      (s'.shared.db.recipients.insertionSort fun a b => a.routingOrder ≤ b.routingOrder))
    (ht' : Reaches (completion worker) (fun _ l => ∀ c, l = .proc p c → c = .next) t t')
    {a : Artifacts} {pending : List (Key × Bytes)} (hstoring : t'.procs p = .storing a pending)
    {source : Bytes} {pages : List Page} (hsource : t'.shared.storage (.document documentKey) = some source)
    (hpages : worker.loadPdf source = some pages) :
    s'.shared.db.recipients.map (fun r => (r.role, r.recipientKey)) =
      input.recipients.map (fun r => (r.role, r.recipientKey)) ∧
    ∀ r ∈ s'.shared.db.recipients, r.role = .signer →
      (Marked shown t'.shared.storage template.fields source a.signedPdf r ↔
        markable pages template.fields r.recipientKey = true) := by
  obtain ⟨hreadable, -⟩ := readable_of_reaches (readable_start hinput hsend) hs
  obtain ⟨hreadable', hlater⟩ := readable_of_reaches hreadable hs'
  obtain ⟨hfields, hlegacy⟩ := hreadable.layout.row req.row hrow
  obtain ⟨source', done, hsource', hpasses, hstamps⟩ := stamps_of_reaches hC ht hread ht' hstoring
  obtain rfl := Option.some.inj (hsource.symm.trans hsource')
  refine ⟨hreadable'.layout.rows.resolve_left fun hnil => ?_, fun r hr hrole => ?_⟩
  · -- Without a row there is nothing to stamp.
    rw [hnil] at hpasses
    simp [passes, hlegacy] at hpasses
  · have hsorted := fun r => List.mem_insertionSort
      (fun a b : Recipient => a.routingOrder ≤ b.routingOrder) (l := s'.shared.db.recipients) (x := r)
    have hsigned := hreadable'.signed hlater hrow hcompleted
    rw [← hfields]
    exact marked_iff_markable hpdf hpages hlegacy (fun q hq => hsigned q ((hsorted q).mp hq)) hpasses
      hstamps ((hsorted r).mpr hr) hrole

/-- **Every named signer has a mark**, in the runs where no resend hits a completed row, exactly when
each has a box for it: an image field of their own, on a page the document has. -/
theorem every_signer_marked_iff {cfg : Config} {template : Template} {input : SendRequest}
    {senderName : Option JsString} {now : Int} {sending : Sending}
    (hinput : SendRequestSchema cfg.platform input = true)
    (hsend : send cfg (some template) input senderName now = .ok sending)
    {s s' : System Envelope.World Envelope.Proc}
    (hs : Reaches (service cfg) (fun s l => sparesSigned s l = true) (Envelope.start sending now) s)
    (hs' : Reaches (service cfg) (fun s l => sparesSigned s l = true) s s')
    (hC : C.Lawful) {worker : Worker C} {shown : Bytes → List (Bytes × Stamp)} (hpdf : worker.Draws shown)
    {now₀ : Int} {requests : List Request} {storage : Storage} (hids : (requests.map Request.id).Nodup)
    (hblank : ∀ r ∈ requests, r.record = .blank)
    (hfresh : ∀ tenant kind uuid, storage (.sibling tenant kind uuid) = none) {t t' : System World Proc}
    (ht : Reaches (completion worker) (fun _ _ => True) (start now₀ requests storage) t)
    {p : Nat} {req : Request} {completedAt : Int} {documentKey : List JsString}
    (hrow : s.shared.db.request = some req.row) (hcompleted : req.row.status = .completed)
    (hread : t.procs p = .sourceReading req completedAt documentKey
      (s'.shared.db.recipients.insertionSort fun a b => a.routingOrder ≤ b.routingOrder))
    (ht' : Reaches (completion worker) (fun _ l => ∀ c, l = .proc p c → c = .next) t t')
    {a : Artifacts} {pending : List (Key × Bytes)} (hstoring : t'.procs p = .storing a pending)
    {source : Bytes} {pages : List Page} (hsource : t'.shared.storage (.document documentKey) = some source)
    (hpages : worker.loadPdf source = some pages) :
    (∀ r ∈ s'.shared.db.recipients, r.role = .signer →
      Marked shown t'.shared.storage template.fields source a.signedPdf r) ↔
    ∀ x ∈ input.recipients, x.role = .signer → markable pages template.fields x.recipientKey = true := by
  have hholds := (sealingOutline hC worker).holds_of_reaches ht (sharedHolds_start hids hblank hfresh)
  obtain ⟨hrows, hmarked⟩ := signer_marked_iff hinput hsend hs hs' hC hpdf hholds hrow hcompleted hread ht'
    hstoring hsource hpages
  have hin : ∀ key, (∃ r ∈ s'.shared.db.recipients, r.role = .signer ∧ r.recipientKey = key) ↔
      ∃ x ∈ input.recipients, x.role = .signer ∧ x.recipientKey = key := by
    intro key
    have hmem : (RecipientRole.signer, key) ∈ s'.shared.db.recipients.map (fun r => (r.role, r.recipientKey)) ↔
        (RecipientRole.signer, key) ∈ input.recipients.map fun r => (r.role, r.recipientKey) := by
      rw [hrows]
    simpa only [List.mem_map, Prod.mk.injEq] using hmem
  constructor
  · intro hall x hx hrole
    obtain ⟨r, hr, hrole', hkey⟩ := (hin x.recipientKey).mpr ⟨x, hx, hrole, rfl⟩
    rw [← hkey]
    exact (hmarked r hr hrole').mp (hall r hr hrole')
  · intro hall r hr hrole
    obtain ⟨x, hx, hrole', hkey⟩ := (hin r.recipientKey).mp ⟨r, hr, hrole, rfl⟩
    refine (hmarked r hr hrole).mpr ?_
    rw [← hkey]
    exact hall x hx hrole'

/-! ## The pipeline gets there -/

theorem step_next {cfg : Worker C} {u : System World Proc} {p : Nat} {w : World} {l : Proc}
    (h : next cfg u.shared (u.procs p) = some (w, l)) :
    (completion cfg).step u (.proc p .next) = some ⟨w, Function.update u.procs p l⟩ := by
  simp [Program.step, completion, act, h]

/-- A run whose every pass can be drawn and whose result can be sealed goes on to store it. -/
theorem storing_of_stamping {cfg : Worker C} {req : Request} {completedAt : Int} {documentKey : List JsString}
    {recipients : List Recipient} {p : Nat} {u : System World Proc} {rest : List Pass} {pdf : Bytes}
    (hl : u.procs p = .stamping req completedAt documentKey recipients rest pdf)
    (hdraws : ∀ pass ∈ rest, ∀ save pdf, ((u.shared.storage (.image pass.imageKey)).bind
      (cfg.stampPdf save pdf pass.fields pass.values)).isSome = true)
    (hseals : ∀ uuids saves pdf,
      (cfg.sealed uuids saves req completedAt documentKey recipients pdf).isSome = true) :
    ∃ u' a pending, Reaches (completion cfg) (fun _ l => ∀ c, l = .proc p c → c = .next) u u' ∧
      u'.procs p = .storing a pending ∧ u'.shared.storage = u.shared.storage := by
  have hok : ∀ c, (Label.proc p Choice.next : Label Choice Event) = .proc p c → c = .next := by
    rintro c hc
    cases hc
    rfl
  induction rest generalizing u pdf with
  | nil =>
      obtain ⟨a, ha⟩ := Option.isSome_iff_exists.mp (hseals u.shared.uuids u.shared.saves pdf)
      have hstep : next cfg u.shared (u.procs p) = some
          ({ u.shared with uuids := u.shared.uuids + 2, saves := u.shared.saves + 1 },
            .storing a [(a.signedPdfKey, a.signedPdf), (a.certificateKey, a.certificatePdf)]) := by
        rw [hl]
        simp only [next, ha]
      exact ⟨_, a, _, Relation.ReflTransGen.single ⟨.proc p .next, hok, step_next hstep⟩,
        Function.update_self .., rfl⟩
  | cons pass rest ih =>
      obtain ⟨stamped, hstamped⟩ := Option.isSome_iff_exists.mp
        (hdraws pass (by simp) u.shared.saves pdf)
      have hstep : next cfg u.shared (u.procs p) = some ({ u.shared with saves := u.shared.saves + 1 },
          .stamping req completedAt documentKey recipients rest stamped) := by
        rw [hl]
        simp only [next, hstamped]
      obtain ⟨u', a, pending, hreaches, hstoring, hstorage⟩ :=
        ih (u := ⟨{ u.shared with saves := u.shared.saves + 1 },
            Function.update u.procs p (.stamping req completedAt documentKey recipients rest stamped)⟩)
          (Function.update_self ..) (fun other hother => hdraws other (by simp [hother]))
      exact ⟨u', a, pending, Relation.ReflTransGen.head ⟨.proc p .next, hok, step_next hstep⟩ hreaches,
        hstoring, hstorage⟩

/-- A first run over a completed request, with the source on file, gets as far as storing its
artifacts. -/
theorem storing_of_start {cfg : Worker C} (now₀ : Int) {req : Request} {storage : Storage}
    {completedAt : Int} {documentKey : List JsString} {source : Bytes} {done : List Pass}
    (hstart : req.start = .recipientsReading req completedAt documentKey)
    (hsource : storage (.document documentKey) = some source)
    (hpasses : passes req.row (req.recipients.insertionSort fun a b => a.routingOrder ≤ b.routingOrder) =
      some done)
    (hdraws : ∀ pass ∈ done, ∀ save pdf, ((storage (.image pass.imageKey)).bind
      (cfg.stampPdf save pdf pass.fields pass.values)).isSome = true)
    (hseals : ∀ recipients uuids saves pdf,
      (cfg.sealed uuids saves req completedAt documentKey recipients pdf).isSome = true) :
    ∃ t t' a pending,
      Reaches (completion cfg) (fun _ _ => True) (start now₀ [req] storage) t ∧
      t.procs 0 = .sourceReading req completedAt documentKey
        (req.recipients.insertionSort fun a b => a.routingOrder ≤ b.routingOrder) ∧
      Reaches (completion cfg) (fun _ l => ∀ c, l = .proc 0 c → c = .next) t t' ∧
      t'.procs 0 = .storing a pending ∧ t'.shared.storage = storage := by
  let sorted := req.recipients.insertionSort fun a b => a.routingOrder ≤ b.routingOrder
  let w : World := (start now₀ [req] storage).shared
  -- Where process 0 stands after the call and after each of its reads.
  let at_ (l : Proc) : System World Proc := ⟨w, Function.update (fun _ => .idle) 0 l⟩
  have hat : ∀ l, (at_ l).procs 0 = l := fun l => by simp [at_]
  have hnext : ∀ l l', next cfg w l = some (w, l') →
      (completion cfg).step (at_ l) (.proc 0 .next) = some (at_ l') := by
    intro l l' h
    have hstep : (completion cfg).step (at_ l) (.proc 0 .next) =
        some ⟨w, Function.update (at_ l).procs 0 l'⟩ := step_next (by rwa [hat l])
    rwa [show Function.update (at_ l).procs 0 l' = Function.update (fun _ => .idle) 0 l' from
      Function.update_idem ..] at hstep
  have hfind : w.find req.id = some req := by simp [w, start, World.find]
  have hcall : (completion cfg).step (start now₀ [req] storage) (.proc 0 (.call req.id)) =
      some (at_ (.loading req.id)) := rfl
  have hload := hnext (.loading req.id) (.recipientsReading req completedAt documentKey)
    (by simp only [next, hfind, hstart])
  have hread := hnext (.recipientsReading req completedAt documentKey)
    (.sourceReading req completedAt documentKey sorted) (by simp [next, hfind, sorted])
  have hopen := hnext (.sourceReading req completedAt documentKey sorted)
    (.stamping req completedAt documentKey sorted done source) (by
      simp only [next, hpasses, sorted, show w.storage (.document documentKey) = some source from hsource])
  obtain ⟨t', a, pending, hreaches, hstoring, hstorage⟩ :=
    storing_of_stamping (hat (.stamping req completedAt documentKey sorted done source)) hdraws (hseals sorted)
  refine ⟨at_ (.sourceReading req completedAt documentKey sorted), t', a, pending, ?_, hat _, ?_, hstoring,
    hstorage⟩
  · exact ((Relation.ReflTransGen.single ⟨_, trivial, hcall⟩).tail ⟨_, trivial, hload⟩).tail
      ⟨_, trivial, hread⟩
  · refine Relation.ReflTransGen.head ⟨.proc 0 .next, ?_, hopen⟩ hreaches
    rintro c hc
    cases hc
    rfl

/-! ## A document that is its drawings -/

instance countableUInt8 : Countable UInt8 := Function.Injective.countable fun _ _ h => UInt8.toNat_inj.mp h

instance countableUInt16 : Countable UInt16 := Function.Injective.countable fun _ _ h => UInt16.toNat_inj.mp h

deriving instance Countable for FieldType
deriving instance Countable for TemplateField
deriving instance Countable for Mark
deriving instance Countable for Stamp

/-- A number for every list of drawings. -/
theorem exists_drawingCode : ∃ code : List (Bytes × Stamp) → Nat, Function.Injective code :=
  exists_injective_nat _

noncomputable def drawingCode : List (Bytes × Stamp) → Nat := Classical.choose exists_drawingCode

/-- The drawings whose number is the length of the document. -/
noncomputable def drawings (pdf : Bytes) : List (Bytes × Stamp) := Function.invFun drawingCode pdf.length

/-- A worker whose documents show what was drawn into them. -/
noncomputable def drawingWorker : Worker exampleCrypto :=
  { exampleWorker with
    savePdf := fun _ pdf png stamps =>
      List.replicate (drawingCode (drawings pdf ++ stamps.map fun st => (png, st))) 0 }

theorem drawingWorker_draws : drawingWorker.Draws drawings where
  pages _ _ _ _ _ h := h
  shown save pdf png stamps := by
    unfold drawings drawingWorker
    rw [List.length_replicate]
    exact Function.leftInverse_invFun (Classical.choose_spec exists_drawingCode) _

/-- An envelope that has been completed, as the pipeline finds it. -/
def completedRequest (row : SignatureRequest) (recipients : List Recipient) : Request :=
  { exampleRequest 0 with row := row, recipients := recipients }

/-- The worker's run over a completed envelope, up to where it stores the sealed document. -/
theorem storing_completedRequest {row : SignatureRequest} {recipients : List Recipient} {completedAt : Int}
    (hstatus : row.status = .completed) (hat : row.completedAt = some completedAt)
    (hsome : ∃ r ∈ recipients, r.role = .signer ∧ r.status = .completed ∧
      r.signatureImageKey.isSome = true) :
    ∃ req documentKey t t' a pending, req.row = row ∧
      Reaches (completion drawingWorker) (fun _ _ => True) (start 4 [req] (exampleStorage [] [1])) t ∧
      req.record = .blank ∧
      t.procs 0 = .sourceReading req completedAt documentKey
        (recipients.insertionSort fun a b => a.routingOrder ≤ b.routingOrder) ∧
      Reaches (completion drawingWorker) (fun _ l => ∀ c, l = .proc 0 c → c = .next) t t' ∧
      t'.procs 0 = .storing a pending ∧ t'.shared.storage = exampleStorage [] [1] := by
  obtain ⟨r, hr, hrole, hdone, himage⟩ := hsome
  obtain ⟨done, hpasses⟩ : ∃ done, passes row
      (recipients.insertionSort fun a b => a.routingOrder ≤ b.routingOrder) = some done := by
    unfold passes
    have hin : r ∈ (recipients.insertionSort fun a b => a.routingOrder ≤ b.routingOrder).filter
        fun r => r.role == .signer && r.status == .completed && r.signatureImageKey.isSome := by
      rw [List.mem_filter, List.mem_insertionSort]
      exact ⟨hr, by simp [hrole, hdone, himage]⟩
    have hne := List.ne_nil_of_mem hin
    simp only [List.isEmpty_iff, hne, if_false]
    exact ⟨_, rfl⟩
  let req := completedRequest row recipients
  let documentKey := [js "tenants", js "t1", js "documents", js "d1"]
  have hstart : req.start = .recipientsReading req completedAt documentKey := by
    simp [req, Request.start, completedRequest, exampleRequest, hstatus, hat, SealRecord.blank, documentKey]
  have hsource : exampleStorage [] [1] (.document documentKey) = some [] := rfl
  have hdraws : ∀ pass ∈ done, ∀ save pdf, ((exampleStorage [] [1] (.image pass.imageKey)).bind
      (drawingWorker.stampPdf save pdf pass.fields pass.values)).isSome = true := by
    intro pass _ save pdf
    obtain ⟨stamps, hstamps⟩ := stampPdf_upright (by decide : ∀ p ∈ examplePages, p.turned = 0) exampleTools
      pass.fields pass.values
    have hstamped : drawingWorker.stampPdf save pdf pass.fields pass.values [1] =
        some (drawingWorker.savePdf save pdf [1] stamps) := by
      unfold Worker.stampPdf
      simp only [show drawingWorker.loadPdf pdf = some examplePages from rfl,
        show drawingWorker.embedPng [1] = some exampleTools from rfl, hstamps]
    rw [show exampleStorage [] [1] (.image pass.imageKey) = some [1] from rfl, Option.bind_some, hstamped]
    rfl
  obtain ⟨t, t', a, pending, ht, hread, ht', hstoring, hstorage⟩ :=
    storing_of_start 4 hstart hsource hpasses hdraws fun _ _ _ _ => rfl
  exact ⟨req, documentKey, t, t', a, pending, rfl, ht, rfl, hread, ht', hstoring, hstorage⟩

/-- Two signers with a box each have both their marks in the sealed document. -/
theorem every_signer_marked_both :
    let input := exampleInput .parallel [exampleRecipient "a" .signer 1, exampleRecipient "b" .signer 1]
    let schedule := exampleConsent 1 0 ++ exampleConsent 2 1 ++ exampleClaim 3 0 ++ exampleClaim 4 1 ++
      List.replicate 3 (.proc 4 .next)
    ∃ s, replayIf sparesSigned exampleConfig exampleTemplate input 0 schedule = some s ∧
      ∃ (t' : System World Proc) (a : Artifacts) (pending : List (Key × Bytes)),
        t'.procs 0 = .storing a pending ∧ ∀ r ∈ s.shared.db.recipients, r.role = .signer →
          Marked drawings t'.shared.storage exampleTemplate.fields [] a.signedPdf r := by
  intro input schedule
  have hrun : (replayIf sparesSigned exampleConfig exampleTemplate input 0 schedule).map (fun s =>
      ((s.shared.db.request.any fun row => row.status == .completed && row.completedAt == some 0),
        s.shared.db.recipients.any fun r =>
          r.role == .signer && r.status == .completed && r.signatureImageKey.isSome)) = some (true, true) := by
    decide +kernel
  obtain ⟨s, hs, heq⟩ := Option.map_eq_some_iff.mp hrun
  obtain ⟨hrow, hsome⟩ := Prod.mk.inj heq
  obtain ⟨row, hrow, hstatus⟩ := (Option.any_eq_true _ _).mp hrow
  simp only [Bool.and_eq_true, beq_iff_eq] at hstatus
  obtain ⟨r, hr, hsigned⟩ := List.any_eq_true.mp hsome
  simp only [Bool.and_eq_true, beq_iff_eq, and_assoc] at hsigned
  obtain ⟨sending, hsend, hreaches⟩ := replayIf_spec hs
  obtain ⟨req, documentKey, t, t', a, pending, rfl, ht, hblank, hread, ht', hstoring, hstorage⟩ :=
    storing_completedRequest hstatus.1 hstatus.2 ⟨r, hr, hsigned⟩
  refine ⟨s, hs, t', a, pending, hstoring, ?_⟩
  exact (every_signer_marked_iff (by decide +kernel) hsend hreaches (Reaches.refl s) exampleCrypto_lawful
    drawingWorker_draws (by simp) (by simpa using hblank) (fun _ _ _ => rfl) ht hrow hstatus.1 hread ht'
    hstoring (by rw [hstorage]; rfl) (show drawingWorker.loadPdf [] = some examplePages from rfl)).mpr
      (by decide +kernel)

/-- The layout gives `b` a text to fill in and nowhere to sign. -/
def unsignedLayout : Template :=
  ⟨js "contract", [signatureField "a", { signatureField "b" with type := .text, required := false }]⟩

/-- The send is accepted, `b` signs like everyone, is named on the certificate, and the sealed document
has no mark of theirs. -/
theorem certified_without_mark :
    let input := exampleInput .parallel [exampleRecipient "a" .signer 1, exampleRecipient "b" .signer 1]
    let schedule := exampleConsent 1 0 ++ exampleConsent 2 1 ++ exampleClaim 3 0 ++ exampleClaim 4 1 ++
      List.replicate 3 (.proc 4 .next)
    TemplateFieldsSchema exampleConfig.platform unsignedLayout.fields = true ∧
    SendRequestSchema exampleConfig.platform input = true ∧
    ∃ s, replayIf sparesSigned exampleConfig unsignedLayout input 0 schedule = some s ∧
      ∃ (t' : System World Proc) (a : Artifacts) (pending : List (Key × Bytes)),
        t'.procs 0 = .storing a pending ∧ ∃ r ∈ s.shared.db.recipients, r.role = .signer ∧
          (∃ signer ∈ certificateSigners a.req.row s.shared.db.recipients, signer.email = r.email) ∧
          ¬ Marked drawings t'.shared.storage unsignedLayout.fields [] a.signedPdf r := by
  intro input schedule
  have hinput : SendRequestSchema exampleConfig.platform input = true := by decide +kernel
  refine ⟨by decide +kernel, hinput, ?_⟩
  have hrun : (replayIf sparesSigned exampleConfig unsignedLayout input 0 schedule).map (fun s =>
      ((s.shared.db.request.any fun row => row.status == .completed && row.completedAt == some 0),
        s.shared.db.recipients.any fun r => r.role == .signer && r.status == .completed &&
          r.signatureImageKey.isSome && !markable examplePages unsignedLayout.fields r.recipientKey)) =
      some (true, true) := by
    decide +kernel
  obtain ⟨s, hs, heq⟩ := Option.map_eq_some_iff.mp hrun
  obtain ⟨hrow, hsome⟩ := Prod.mk.inj heq
  obtain ⟨row, hrow, hstatus⟩ := (Option.any_eq_true _ _).mp hrow
  simp only [Bool.and_eq_true, beq_iff_eq] at hstatus
  obtain ⟨r, hr, hsigned⟩ := List.any_eq_true.mp hsome
  simp only [Bool.and_eq_true, beq_iff_eq, Bool.not_eq_true'] at hsigned
  obtain ⟨⟨⟨hrole, hdone⟩, himage⟩, hnowhere⟩ := hsigned
  obtain ⟨sending, hsend, hreaches⟩ := replayIf_spec hs
  obtain ⟨req, documentKey, t, t', a, pending, rfl, ht, hblank, hread, ht', hstoring, hstorage⟩ :=
    storing_completedRequest hstatus.1 hstatus.2 ⟨r, hr, hrole, hdone, himage⟩
  have hholds := (sealingOutline exampleCrypto_lawful drawingWorker).holds_of_reaches ht
    (sharedHolds_start (by simp) (by simpa using hblank) (fun _ _ _ => rfl))
  have hmarked := (signer_marked_iff hinput hsend hreaches (Reaches.refl s) exampleCrypto_lawful
    drawingWorker_draws hholds hrow hstatus.1 hread ht' hstoring (by rw [hstorage]; rfl)
    (show drawingWorker.loadPdf [] = some examplePages from rfl)).2 r hr hrole
  obtain ⟨signer, hsigner, hemail, -⟩ := named_on_certificate a.req.row hr hrole
  refine ⟨s, hs, t', a, pending, hstoring, r, hr, hrole, ⟨signer, hsigner, hemail⟩, fun h => ?_⟩
  rw [hmarked, hnowhere] at h
  cases h

end ESignSoft.Sealing
