import ESignSoft.Envelope.Writes
import ESignSoft.Signing.Ink
import ESignSoft.Signing.StampedBoxes
import ESignSoft.Sealing.Verify

/-!
# One seal for each request, and it verifies

However many runs of `completeSignature` go side by side, retried or cut short anywhere, the columns that
say what was sealed are written once and together, they describe the very bytes that are stored, and so
do the copies that are mailed.

* `Evolves` — what no step ever takes back: stored objects, completion, a record;
* `sealingOutline` — what each run knows of the rows and of the objects it stores;
* `one_seal_per_request` — the record, the stored bytes, the mails and both checks in every run;
* `verify_refuses_large` — a sealed document that the sender's check refuses, of parts that are let in.
-/

namespace ESignSoft.Sealing

open ESignSoft.Lib.JsText ESignSoft.Lib.JsDate ESignSoft.Lib.Table ESignSoft.Lib.Interleaving
open ESignSoft.Contracts ESignSoft.Signing ESignSoft.Envelope

variable {C : NodeCrypto}

/-! ## What is on file -/

/-- The fingerprint and the seal are those of the signed document. -/
structure Artifacts.Genuine (S : SealService C) (a : Artifacts) (completedAt : Int) : Prop where
  hash : a.documentHash = C.sha256Hex a.signedPdf
  verifies : S.verify ⟨a.req.id, completedAt, a.documentHash⟩ a.sealSignature a.sealKid = true
  signature_ne : a.sealSignature ≠ []
  kid_ne : a.sealKid ≠ []

/-- Both objects are stored under their keys. -/
structure Artifacts.Stored (a : Artifacts) (storage : Storage) : Prop where
  signedPdf : storage a.signedPdfKey = some a.signedPdf
  certificatePdf : storage a.certificateKey = some a.certificatePdf

/-- The request was completed at this moment. -/
def CompletedAt (r : Request) (completedAt : Int) : Prop :=
  r.row.status = .completed ∧ r.row.completedAt = some completedAt

/-- The record of a request is that of genuine artifacts that are stored. -/
def Sealed (S : SealService C) (storage : Storage) (r : Request) : Prop :=
  ∃ a completedAt, r.record = Artifacts.record a ∧ a.req.id = r.id ∧ CompletedAt r completedAt ∧
    a.Genuine S completedAt ∧ a.Stored storage

/-- What the record of the request points to in storage. -/
def Filed (w : World) (id : JsString) (signedPdf certificatePdf : Bytes) : Prop :=
  ∃ r ∈ w.requests, r.id = id ∧ ∃ signedPdfKey certificateKey,
    r.record.signedPdfKey = some signedPdfKey ∧ r.record.certificateKey = some certificateKey ∧
      w.storage signedPdfKey = some signedPdf ∧ w.storage certificateKey = some certificatePdf

/-! ## What no step takes back -/

structure RowEvolves (r r' : Request) : Prop where
  id : r'.id = r.id
  completed : ∀ completedAt, CompletedAt r completedAt → CompletedAt r' completedAt
  record : r.record ≠ .blank → r'.record = r.record

structure Evolves (w w' : World) : Prop where
  rows : ∀ r ∈ w.requests, ∃ r' ∈ w'.requests, RowEvolves r r'
  storage : ∀ key body, w.storage key = some body → w'.storage key = some body
  uuids : w.uuids ≤ w'.uuids

theorem RowEvolves.refl (r : Request) : RowEvolves r r := ⟨rfl, fun _ h => h, fun _ => rfl⟩

theorem RowEvolves.trans {r s t : Request} (h : RowEvolves r s) (h' : RowEvolves s t) : RowEvolves r t where
  id := h'.id.trans h.id
  completed completedAt hr := h'.completed completedAt (h.completed completedAt hr)
  record hr := by
    have hs := h.record hr
    exact (h'.record (by rwa [hs])).trans hs

theorem Evolves.refl (w : World) : Evolves w w :=
  ⟨fun r hr => ⟨r, hr, RowEvolves.refl r⟩, fun _ _ h => h, le_refl _⟩

theorem Evolves.trans {u v w : World} (h : Evolves u v) (h' : Evolves v w) : Evolves u w where
  rows r hr := by
    obtain ⟨s, hs, hrs⟩ := h.rows r hr
    obtain ⟨t, ht, hst⟩ := h'.rows s hs
    exact ⟨t, ht, hrs.trans hst⟩
  storage key body hkey := h'.storage key body (h.storage key body hkey)
  uuids := le_trans h.uuids h'.uuids

/-- An update of some rows takes nothing back when it does not on each row it writes. -/
theorem Evolves.of_update {w : World} {cond : Request → Bool} {set : Request → Request}
    (h : ∀ r ∈ w.requests, cond r = true → RowEvolves r (set r)) :
    Evolves w { w with requests := updateMany cond set w.requests } where
  rows r hr := by
    refine ⟨_, mem_updateMany.mpr ⟨r, hr, rfl⟩, ?_⟩
    split
    · exact h r hr ‹_›
    · exact RowEvolves.refl r
  storage _ _ h := h
  uuids := le_refl _

/-- Storing an object under a free key overwrites nothing. -/
theorem Evolves.put {w : World} {key : Key} (hfree : w.storage key = none) (body : Bytes) :
    Evolves w { w with storage := putObject key body w.storage } where
  rows r hr := ⟨r, hr, RowEvolves.refl r⟩
  storage k b hk := by
    have hne : k ≠ key := by
      rintro rfl
      rw [hfree] at hk
      cases hk
    exact (Function.update_of_ne hne _ _).trans hk
  uuids := le_refl _

theorem Filed.evolve {w w' : World} {id : JsString} {signedPdf certificatePdf : Bytes}
    (h : Filed w id signedPdf certificatePdf) (hev : Evolves w w') :
    Filed w' id signedPdf certificatePdf := by
  obtain ⟨r, hr, hid, key, certificateKey, hkey, hcertificate, hpdf, hcertificatePdf⟩ := h
  obtain ⟨r', hr', hrow⟩ := hev.rows r hr
  have hrecord : r'.record = r.record := hrow.record fun hblank => by
    rw [hblank] at hkey
    cases hkey
  refine ⟨r', hr', hrow.id.trans hid, key, certificateKey, ?_, ?_, hev.storage _ _ hpdf,
    hev.storage _ _ hcertificatePdf⟩
  · rw [hrecord, hkey]
  · rw [hrecord, hcertificate]

theorem Artifacts.Stored.evolve {a : Artifacts} {w w' : World} (h : a.Stored w.storage)
    (hev : Evolves w w') : a.Stored w'.storage :=
  ⟨hev.storage _ _ h.signedPdf, hev.storage _ _ h.certificatePdf⟩

/-- A completed envelope keeps the moment of its completion, whatever else is written. -/
theorem onRequest_completedAt {w : Write} {s : SignatureRequest} (h : s.status = .completed) :
    (w.onRequest s).completedAt = s.completedAt := by
  cases w <;> simp only [Write.onRequest, updateRow, SignatureRequest.open_, h] <;> split_ifs <;>
    first | rfl | simp_all

/-! ## What a run knows -/

/-- The objects a run has still to store. -/
def Proc.pendingKeys : Proc → List Key
  | .storing _ pending => pending.map Prod.fst
  | _ => []

/-- The key was made here, and with a UUID drawn by then. -/
def Drawn (uuids : Nat) (key : Key) : Prop := ∃ tenant kind uuid, key = .sibling tenant kind uuid ∧ uuid < uuids

structure Shared (S : SealService C) (w : World) : Prop where
  ids : (w.requests.map Request.id).Nodup
  records : ∀ r ∈ w.requests, r.record = .blank ∨ Sealed S w.storage r
  drawn : ∀ tenant kind uuid, w.storage (.sibling tenant kind uuid) ≠ none → uuid < w.uuids
  mailed : ∀ copy ∈ w.mailed, Filed w copy.requestId copy.signedPdf copy.certificatePdf

/-- The request of a run is completed, at this moment. -/
def Known (w : World) (id : JsString) (completedAt : Int) : Prop :=
  ∃ r ∈ w.requests, r.id = id ∧ CompletedAt r completedAt

/-- What a run that has sealed knows: each object is stored, or its key is still free. -/
structure Storing (S : SealService C) (w : World) (a : Artifacts) (pending : List (Key × Bytes)) : Prop where
  genuine : ∃ completedAt, Known w a.req.id completedAt ∧ a.Genuine S completedAt
  free : ∀ x ∈ pending, w.storage x.1 = none ∧ Drawn w.uuids x.1
  distinct : (pending.map Prod.fst).Nodup
  signedPdf : (a.signedPdfKey, a.signedPdf) ∈ pending ∨ w.storage a.signedPdfKey = some a.signedPdf
  certificatePdf : (a.certificateKey, a.certificatePdf) ∈ pending ∨
    w.storage a.certificateKey = some a.certificatePdf

/-- What a run knows where it stands. -/
def Local (S : SealService C) (w : World) : Proc → Prop
  | .fetching req signedPdfKey certificateKey =>
      ∃ r ∈ w.requests, r.id = req.id ∧ r.record.signedPdfKey = some signedPdfKey ∧
        r.record.certificateKey = some certificateKey
  | .recipientsReading req completedAt _ => Known w req.id completedAt
  | .sourceReading req completedAt _ _ => Known w req.id completedAt
  | .stamping req completedAt _ _ _ _ => Known w req.id completedAt
  | .storing a pending => Storing S w a pending
  | .recording a =>
      (∃ completedAt, Known w a.req.id completedAt ∧ a.Genuine S completedAt) ∧ a.Stored w.storage
  | .delivering req signedPdf certificatePdf => Filed w req.id signedPdf certificatePdf
  | .mailing req signedPdf certificatePdf _ => Filed w req.id signedPdf certificatePdf
  | _ => True

theorem Known.evolve {w w' : World} {id : JsString} {completedAt : Int} (h : Known w id completedAt)
    (hev : Evolves w w') : Known w' id completedAt := by
  obtain ⟨r, hr, hid, hcompleted⟩ := h
  obtain ⟨r', hr', hrow⟩ := hev.rows r hr
  exact ⟨r', hr', hrow.id.trans hid, hrow.completed completedAt hcompleted⟩

theorem Sealed.storage {S : SealService C} {storage storage' : Storage} {r : Request}
    (h : Sealed S storage r)
    (hext : ∀ key body, storage key = some body → storage' key = some body) : Sealed S storage' r := by
  obtain ⟨a, completedAt, hrecord, hid, hcompleted, hgenuine, hstored⟩ := h
  exact ⟨a, completedAt, hrecord, hid, hcompleted, hgenuine,
    hext _ _ hstored.signedPdf, hext _ _ hstored.certificatePdf⟩

/-- What a run knows survives a step that leaves the objects it has still to store alone. -/
theorem Local.evolve {S : SealService C} {w w' : World} {l : Proc} (h : Local S w l) (hev : Evolves w w')
    (hkeys : ∀ key ∈ l.pendingKeys, w'.storage key = w.storage key) : Local S w' l := by
  cases l with
  | fetching req signedPdfKey certificateKey =>
      obtain ⟨r, hr, hid, hkey, hcertificate⟩ := h
      obtain ⟨r', hr', hrow⟩ := hev.rows r hr
      have hrecord : r'.record = r.record := hrow.record fun hblank => by
        rw [hblank] at hkey
        cases hkey
      exact ⟨r', hr', hrow.id.trans hid, by rw [hrecord, hkey], by rw [hrecord, hcertificate]⟩
  | recipientsReading req completedAt documentKey => exact Known.evolve h hev
  | sourceReading req completedAt documentKey recipients => exact Known.evolve h hev
  | stamping req completedAt documentKey recipients rest signedPdf => exact Known.evolve h hev
  | storing a pending =>
      obtain ⟨completedAt, hknown, hgenuine⟩ := h.genuine
      refine ⟨⟨completedAt, hknown.evolve hev, hgenuine⟩, fun x hx => ?_, h.distinct,
        h.signedPdf.imp id (hev.storage _ _), h.certificatePdf.imp id (hev.storage _ _)⟩
      obtain ⟨hfree, tenant, kind, uuid, hkey, hlt⟩ := h.free x hx
      refine ⟨?_, tenant, kind, uuid, hkey, lt_of_lt_of_le hlt hev.uuids⟩
      rw [hkeys x.1 (List.mem_map_of_mem hx), hfree]
  | recording a =>
      obtain ⟨⟨completedAt, hknown, hgenuine⟩, hstored⟩ := h
      exact ⟨⟨completedAt, hknown.evolve hev, hgenuine⟩, hstored.evolve hev⟩
  | delivering req signedPdf certificatePdf => exact Filed.evolve h hev
  | mailing req signedPdf certificatePdf rest => exact Filed.evolve h hev
  | _ => trivial

/-! ## Steps -/

/-- A step of a run, as the other runs see it. -/
structure StepOk (S : SealService C) (w : World) (l : Proc) (w' : World) (l' : Proc) : Prop where
  evolves : Evolves w w'
  shared : Shared S w'
  own : Local S w' l'
  storage : ∀ key ∉ l.pendingKeys, w'.storage key = w.storage key
  keys : ∀ key ∈ l'.pendingKeys, key ∈ l.pendingKeys ∨ ¬ Drawn w.uuids key

/-- A step that neither writes a row nor stores an object. -/
theorem StepOk.quiet {S : SealService C} {w w' : World} {l l' : Proc} (hshared : Shared S w)
    (hrequests : w'.requests = w.requests) (hstorage : w'.storage = w.storage) (huuids : w'.uuids = w.uuids)
    (hmailed : ∀ copy ∈ w'.mailed,
      copy ∈ w.mailed ∨ Filed w copy.requestId copy.signedPdf copy.certificatePdf)
    (hown : Local S w l') (hkeys : l'.pendingKeys = []) : StepOk S w l w' l' := by
  have hev : Evolves w w' := by
    refine ⟨fun r hr => ⟨r, by rwa [hrequests], RowEvolves.refl r⟩, fun key body h => by rwa [hstorage],
      by rw [huuids]⟩
  constructor
  case evolves => exact hev
  case shared =>
    constructor
    · rw [hrequests]
      exact hshared.ids
    · rw [hrequests, hstorage]
      exact hshared.records
    · rw [hstorage, huuids]
      exact hshared.drawn
    · intro copy hcopy
      rcases hmailed copy hcopy with hold | hfiled
      · exact (hshared.mailed copy hold).evolve hev
      · exact hfiled.evolve hev
  case own => exact hown.evolve hev (by simp [hkeys])
  case storage => exact fun key _ => by rw [hstorage]
  case keys => simp [hkeys]

/-- A step that only reads. -/
theorem StepOk.read {S : SealService C} {w : World} {l l' : Proc} (hshared : Shared S w)
    (hown : Local S w l') (hkeys : l'.pendingKeys = []) : StepOk S w l w l' :=
  StepOk.quiet hshared rfl rfl rfl (fun _ h => Or.inl h) hown hkeys

/-- An update of the requests that takes nothing back. -/
theorem StepOk.update {S : SealService C} {w : World} {l l' : Proc} {cond : Request → Bool}
    {set : Request → Request} (hshared : Shared S w)
    (hrow : ∀ r ∈ w.requests, cond r = true → RowEvolves r (set r))
    (hid : ∀ r, (set r).id = r.id)
    (hrecords : ∀ r ∈ w.requests, cond r = true → r.record = .blank ∨ Sealed S w.storage r →
      (set r).record = .blank ∨ Sealed S w.storage (set r))
    (hown : Local S { w with requests := updateMany cond set w.requests } l')
    (hkeys : l'.pendingKeys = []) :
    StepOk S w l { w with requests := updateMany cond set w.requests } l' where
  evolves := Evolves.of_update hrow
  shared :=
    { ids := by
        rw [map_updateMany_eq Request.id hid]
        exact hshared.ids
      records := forall_mem_updateMany hshared.records hrecords
      drawn := hshared.drawn
      mailed := fun copy hcopy => (hshared.mailed copy hcopy).evolve (Evolves.of_update hrow) }
  own := hown
  storage _ _ := rfl
  keys key hkey := by
    rw [hkeys] at hkey
    cases hkey

/-- One of the objects a run has still to store is stored. -/
theorem StepOk.put {S : SealService C} {w : World} {a : Artifacts} {pending rest : List (Key × Bytes)}
    {key : Key} {body : Bytes} (hshared : Shared S w) (h : Storing S w a pending)
    (hperm : pending.Perm ((key, body) :: rest)) :
    StepOk S w (.storing a pending) { w with storage := putObject key body w.storage } (.storing a rest) := by
  obtain ⟨hfree, hdrawn⟩ := h.free (key, body) (hperm.symm.subset List.mem_cons_self)
  have hrest : ∀ x ∈ rest, x ∈ pending := fun x hx => hperm.symm.subset (List.mem_cons_of_mem _ hx)
  have hdistinct : key ∉ rest.map Prod.fst ∧ (rest.map Prod.fst).Nodup := by
    have hnodup := (hperm.map Prod.fst).nodup_iff.mp h.distinct
    simpa using hnodup
  have hput : ∀ k, k ≠ key → putObject key body w.storage k = w.storage k :=
    fun k hk => Function.update_of_ne hk _ _
  have hself : putObject key body w.storage key = some body := Function.update_self _ _ _
  have hev := Evolves.put hfree body
  -- Where an object was stored or still to store, it is so again.
  have hobject : ∀ k b, (k, b) ∈ pending ∨ w.storage k = some b →
      (k, b) ∈ rest ∨ putObject key body w.storage k = some b := by
    rintro k b (hmem | hstored)
    · rcases List.mem_cons.mp (hperm.subset hmem) with heq | hmem'
      · obtain ⟨rfl, rfl⟩ := Prod.mk.inj heq
        exact Or.inr hself
      · exact Or.inl hmem'
    · exact Or.inr (hev.storage k b hstored)
  constructor
  case evolves => exact hev
  case shared =>
    constructor
    · exact hshared.ids
    · exact fun r hr => (hshared.records r hr).imp id fun hsealed => hsealed.storage hev.storage
    · intro tenant kind uuid hstored
      by_cases hk : Key.sibling tenant kind uuid = key
      · obtain ⟨_, _, _, hkey, hlt⟩ := hdrawn
        obtain ⟨-, -, rfl⟩ := Key.sibling.inj (hk.trans hkey)
        exact hlt
      · exact hshared.drawn tenant kind uuid (by rwa [← hput _ hk])
    · exact fun copy hcopy => (hshared.mailed copy hcopy).evolve hev
  case own =>
    obtain ⟨completedAt, hknown, hgenuine⟩ := h.genuine
    refine ⟨⟨completedAt, hknown.evolve hev, hgenuine⟩, fun x hx => ?_, hdistinct.2,
      hobject _ _ h.signedPdf, hobject _ _ h.certificatePdf⟩
    obtain ⟨hxfree, hxdrawn⟩ := h.free x (hrest x hx)
    refine ⟨?_, hxdrawn⟩
    show putObject key body w.storage x.1 = none
    rw [hput, hxfree]
    intro heq
    exact hdistinct.1 (heq ▸ List.mem_map_of_mem hx)
  case storage =>
    intro k hk
    refine hput k ?_
    rintro rfl
    exact hk (List.mem_map.mpr ⟨(k, body), hperm.symm.subset List.mem_cons_self, rfl⟩)
  case keys =>
    intro k hk
    obtain ⟨x, hx, rfl⟩ := List.mem_map.mp hk
    exact Or.inl (List.mem_map_of_mem (hrest x hx))

/-- What a run seals is genuine, and its keys are new. -/
theorem Worker.sealed_spec (hC : C.Lawful) {cfg : Worker C} {uuids saves : Nat} {req : Request}
    {completedAt : Int} {documentKey : List JsString} {recipients : List Recipient} {signedPdf : Bytes}
    {a : Artifacts}
    (h : cfg.sealed uuids saves req completedAt documentKey recipients signedPdf = some a) :
    a.req = req ∧ a.Genuine cfg.sealService completedAt ∧
      (∃ tenant, a.signedPdfKey = .sibling tenant (js "signed") uuids) ∧
      ∃ tenant, a.certificateKey = .sibling tenant (js "certificates") (uuids + 1) := by
  have hkey : ∀ {kind uuid key}, siblingKey documentKey kind uuid = some key →
      ∃ tenant, key = .sibling tenant kind uuid := by
    intro kind uuid key hkey
    unfold siblingKey at hkey
    split at hkey
    · split at hkey
      · obtain rfl := Option.some.inj hkey
        exact ⟨_, rfl⟩
      · cases hkey
    · cases hkey
  unfold Worker.sealed at h
  simp only at h
  split at h
  · rename_i certificatePdf signedPdfKey certificateKey _ hsigned hcertificate
    obtain rfl := Option.some.inj h
    refine ⟨rfl, ?_, hkey hsigned, hkey hcertificate⟩
    exact
      { hash := rfl
        verifies := cfg.sealService.verify_seal hC _
        signature_ne := hC.toBase64_sign_ne _ _
        kid_ne := cfg.sealService.kid_ne }
  · cases h

/-- What a run knows of the row it has loaded. -/
theorem Request.start_local {S : SealService C} {w : World} {req : Request} (hreq : req ∈ w.requests) :
    Local S w req.start ∧ req.start.pendingKeys = [] := by
  unfold Request.start
  split
  · exact ⟨trivial, rfl⟩
  · split
    · exact ⟨trivial, rfl⟩
    · rename_i hstatus
      split
      · exact ⟨trivial, rfl⟩
      · rename_i completedAt hcompletedAt
        split
        · rename_i signedPdfKey certificateKey hsigned hcertificate
          exact ⟨⟨req, hreq, rfl, hsigned, hcertificate⟩, rfl⟩
        · split
          · exact ⟨trivial, rfl⟩
          · exact ⟨⟨req, hreq, rfl, not_not.mp hstatus, hcompletedAt⟩, rfl⟩

/-- The conditional update records artifacts on a request that has none, or does nothing. -/
theorem StepOk.record {S : SealService C} {w : World} {a : Artifacts} (hshared : Shared S w)
    (h : Local S w (.recording a)) :
    StepOk S w (.recording a)
      { w with
        requests := updateMany (unrecorded a.req.id) (fun r => { r with record := a.record }) w.requests }
      (if matchCount (unrecorded a.req.id) w.requests = 1 then
        .delivering a.req a.signedPdf a.certificatePdf
      else .done) := by
  obtain ⟨⟨completedAt, ⟨r₀, hr₀, hid₀, hcompleted⟩, hgenuine⟩, hstored⟩ := h
  have hblank : ∀ r ∈ w.requests, unrecorded a.req.id r = true → r = r₀ ∧ r.record = .blank := by
    intro r hr hcond
    simp only [unrecorded, Bool.and_eq_true, beq_iff_eq] at hcond
    refine ⟨eq_of_key_eq hshared.ids hr hr₀ (hcond.1.trans hid₀.symm), ?_⟩
    rcases hshared.records r hr with hblank | ⟨b, _, hrecord, -⟩
    · exact hblank
    · rw [hrecord] at hcond
      cases hcond.2
  refine StepOk.update hshared (fun r hr hcond => ?_) (fun r => rfl) (fun r hr hcond _ => ?_) ?_ ?_
  · exact ⟨rfl, fun _ hr' => hr', fun hne => absurd (hblank r hr hcond).2 hne⟩
  · obtain rfl := (hblank r hr hcond).1
    exact Or.inr ⟨a, completedAt, rfl, hid₀.symm, hcompleted, hgenuine, hstored⟩
  · split
    · rename_i hcount
      obtain ⟨r, hr, hcond⟩ := exists_of_matchCount_pos (by omega : 0 < matchCount (unrecorded a.req.id) w.requests)
      obtain rfl := (hblank r hr hcond).1
      refine ⟨{ r with record := a.record }, mem_updateMany.mpr ⟨r, hr, by rw [if_pos hcond]⟩, hid₀, _, _,
        rfl, rfl, hstored.signedPdf, hstored.certificatePdf⟩
    · trivial
  · split <;> rfl

/-- A run that has stamped the document takes two new keys. -/
theorem StepOk.seal_ {S : SealService C} {w w' : World} {l : Proc} {a : Artifacts} {completedAt : Int}
    (hshared : Shared S w) (hknown : Known w a.req.id completedAt) (hgenuine : a.Genuine S completedAt)
    (hsigned : ∃ tenant, a.signedPdfKey = .sibling tenant (js "signed") w.uuids)
    (hcertificate : ∃ tenant, a.certificateKey = .sibling tenant (js "certificates") (w.uuids + 1))
    (hw' : w' = { w with uuids := w.uuids + 2, saves := w.saves + 1 }) :
    StepOk S w l w'
      (.storing a [(a.signedPdfKey, a.signedPdf), (a.certificateKey, a.certificatePdf)]) := by
  obtain ⟨tenant, hsigned⟩ := hsigned
  obtain ⟨tenant', hcertificate⟩ := hcertificate
  subst hw'
  have hev : Evolves w { w with uuids := w.uuids + 2, saves := w.saves + 1 } :=
    ⟨fun r hr => ⟨r, hr, RowEvolves.refl r⟩, fun _ _ h => h, by simp only; omega⟩
  -- Nothing is stored under a key that is not drawn yet.
  have hfree : ∀ tenant kind uuid, w.uuids ≤ uuid → w.storage (.sibling tenant kind uuid) = none := by
    intro tenant kind uuid hle
    by_contra hstored
    have := hshared.drawn tenant kind uuid hstored
    omega
  constructor
  case evolves => exact hev
  case shared =>
    refine ⟨hshared.ids, hshared.records, fun tenant kind uuid h => ?_,
      fun copy hcopy => (hshared.mailed copy hcopy).evolve hev⟩
    have := hshared.drawn tenant kind uuid h
    simp only
    omega
  case own =>
    refine ⟨⟨completedAt, hknown.evolve hev, hgenuine⟩, ?_, ?_, Or.inl (by simp), Or.inl (by simp)⟩
    · intro x hx
      rcases List.mem_cons.mp hx with rfl | hx
      · rw [hsigned]
        exact ⟨hfree _ _ _ (le_refl _), _, _, _, rfl, by simp only; omega⟩
      · obtain rfl := List.mem_singleton.mp hx
        rw [hcertificate]
        exact ⟨hfree _ _ _ (Nat.le_succ _), _, _, _, rfl, by simp only; omega⟩
    · simp [hsigned, hcertificate]
  case storage => exact fun _ _ => rfl
  case keys =>
    intro key hkey
    refine Or.inr ?_
    rintro ⟨_, _, uuid, rfl, hlt⟩
    simp only [Proc.pendingKeys, List.map_cons, List.map_nil, hsigned, hcertificate, List.mem_cons,
      Key.sibling.injEq, List.not_mem_nil, or_false] at hkey
    omega

theorem next_ok (hC : C.Lawful) {cfg : Worker C} {w w' : World} {l l' : Proc}
    (hshared : Shared cfg.sealService w) (hown : Local cfg.sealService w l)
    (h : next cfg w l = some (w', l')) : StepOk cfg.sealService w l w' l' := by
  cases l with
  | idle => cases h
  | done => cases h
  | failed => cases h
  | loading id =>
      simp only [next] at h
      split at h <;> obtain ⟨rfl, rfl⟩ := Prod.mk.inj (Option.some.inj h)
      · exact StepOk.read hshared trivial rfl
      · rename_i req hreq
        obtain ⟨hlocal, hkeys⟩ := Request.start_local (S := cfg.sealService) (List.mem_of_find?_eq_some hreq)
        exact StepOk.read hshared hlocal hkeys
  | fetching req signedPdfKey certificateKey =>
      obtain ⟨r, hr, hid, hkey, hcertificate⟩ := hown
      simp only [next] at h
      split at h <;> obtain ⟨rfl, rfl⟩ := Prod.mk.inj (Option.some.inj h)
      · exact StepOk.read hshared ⟨r, hr, hid, _, _, hkey, hcertificate, ‹_›, ‹_›⟩ rfl
      · exact StepOk.read hshared trivial rfl
  | recipientsReading req completedAt documentKey =>
      obtain ⟨rfl, rfl⟩ := Prod.mk.inj (Option.some.inj h)
      exact StepOk.read hshared hown rfl
  | sourceReading req completedAt documentKey recipients =>
      simp only [next] at h
      split at h <;> obtain ⟨rfl, rfl⟩ := Prod.mk.inj (Option.some.inj h)
      · exact StepOk.read hshared hown rfl
      · exact StepOk.read hshared trivial rfl
  | stamping req completedAt documentKey recipients rest signedPdf =>
      cases rest with
      | cons pass rest =>
          simp only [next] at h
          split at h <;> obtain ⟨rfl, rfl⟩ := Prod.mk.inj (Option.some.inj h)
          · exact StepOk.read hshared trivial rfl
          · exact StepOk.quiet hshared rfl rfl rfl (fun _ h => Or.inl h) hown rfl
      | nil =>
          simp only [next] at h
          split at h <;> obtain ⟨rfl, rfl⟩ := Prod.mk.inj (Option.some.inj h)
          · exact StepOk.read hshared trivial rfl
          · rename_i a ha
            obtain ⟨hreq, hgenuine, hsigned, hcertificate⟩ := Worker.sealed_spec hC ha
            exact StepOk.seal_ hshared (by rw [hreq]; exact hown) hgenuine hsigned hcertificate rfl
  | storing a pending =>
      cases pending with
      | nil =>
          obtain ⟨rfl, rfl⟩ := Prod.mk.inj (Option.some.inj h)
          have hstored : a.Stored w.storage :=
            ⟨hown.signedPdf.resolve_left (by simp), hown.certificatePdf.resolve_left (by simp)⟩
          exact StepOk.read hshared ⟨hown.genuine, hstored⟩ rfl
      | cons x rest =>
          obtain ⟨rfl, rfl⟩ := Prod.mk.inj (Option.some.inj h)
          exact StepOk.put hshared hown (List.Perm.refl _)
  | recording a =>
      obtain ⟨rfl, rfl⟩ := Prod.mk.inj (Option.some.inj h)
      exact StepOk.record hshared hown
  | delivering req signedPdf certificatePdf =>
      obtain ⟨rfl, rfl⟩ := Prod.mk.inj (Option.some.inj h)
      exact StepOk.read hshared hown rfl
  | mailing req signedPdf certificatePdf rest =>
      cases rest with
      | nil =>
          obtain ⟨rfl, rfl⟩ := Prod.mk.inj (Option.some.inj h)
          exact StepOk.read hshared trivial rfl
      | cons letter rest =>
          obtain ⟨rfl, rfl⟩ := Prod.mk.inj (Option.some.inj h)
          refine StepOk.quiet hshared rfl rfl rfl (fun copy hcopy => ?_) hown rfl
          rcases List.mem_cons.mp hcopy with rfl | hold
          · exact Or.inr hown
          · exact Or.inl hold
  | marking req =>
      obtain ⟨rfl, rfl⟩ := Prod.mk.inj (Option.some.inj h)
      exact StepOk.update hshared (fun r _ _ => ⟨rfl, fun _ hr => hr, fun _ => rfl⟩) (fun r => rfl)
        (fun r _ _ hrecord => hrecord) trivial rfl

theorem act_ok (hC : C.Lawful) {cfg : Worker C} {p : Nat} {c : Choice} {w w' : World} {l l' : Proc}
    (hshared : Shared cfg.sealService w) (hown : Local cfg.sealService w l)
    (h : act cfg p c w l = some (w', l')) : StepOk cfg.sealService w l w' l' := by
  cases c with
  | call id =>
      simp only [act] at h
      split at h
      · obtain ⟨rfl, rfl⟩ := Prod.mk.inj (Option.some.inj h)
        exact StepOk.read hshared trivial rfl
      · cases h
  | next => exact next_ok hC hshared hown h
  | other =>
      simp only [act] at h
      split at h
      · obtain ⟨rfl, rfl⟩ := Prod.mk.inj (Option.some.inj h)
        exact StepOk.put hshared hown (List.Perm.swap _ _ _)
      · cases h
  | fail sent =>
      simp only [act] at h
      split at h
      · obtain ⟨rfl, rfl⟩ := Prod.mk.inj (Option.some.inj h)
        cases sent with
        | false => exact StepOk.read hshared trivial rfl
        | true =>
            refine StepOk.quiet hshared rfl rfl rfl (fun copy hcopy => ?_) trivial rfl
            rcases List.mem_cons.mp hcopy with rfl | hold
            · exact Or.inr hown
            · exact Or.inl hold
      · cases h
  | crash =>
      simp only [act] at h
      split at h
      · cases h
      · obtain ⟨rfl, rfl⟩ := Prod.mk.inj (Option.some.inj h)
        exact StepOk.read hshared trivial rfl

/-- The clock and the envelopes' own transactions take nothing back. -/
theorem env_ok {S : SealService C} {e : Event} {w w' : World} (hshared : Shared S w)
    (h : env e w = some w') : StepOk S w .idle w' .idle := by
  cases e with
  | clock now =>
      obtain rfl := Option.some.inj h
      exact StepOk.quiet hshared rfl rfl rfl (fun _ h => Or.inl h) trivial rfl
  | wrote id write =>
      obtain rfl := Option.some.inj h
      have hcompleted : ∀ (r : Request) completedAt, CompletedAt r completedAt →
          CompletedAt { r with
            row := write.onRequest r.row
            recipients := r.recipients.map write.onRecipient } completedAt := by
        rintro r completedAt ⟨hstatus, hat⟩
        exact ⟨(onRequest_final (Or.inl hstatus)).trans hstatus, (onRequest_completedAt hstatus).trans hat⟩
      refine StepOk.update hshared (fun r _ _ => ⟨rfl, hcompleted r, fun _ => rfl⟩) (fun r => rfl)
        (fun r _ _ hrecord => hrecord.imp (fun h => h) ?_) trivial rfl
      rintro ⟨a, completedAt, hrecord, hid, hr, hgenuine, hstored⟩
      exact ⟨a, completedAt, hrecord, hid, hcompleted r completedAt hr, hgenuine, hstored⟩

/-! ## Every run -/

theorem Local.drawn {S : SealService C} {w : World} {l : Proc} (h : Local S w l) {key : Key}
    (hkey : key ∈ l.pendingKeys) : Drawn w.uuids key := by
  cases l with
  | storing a pending =>
      obtain ⟨x, hx, rfl⟩ := List.mem_map.mp hkey
      exact (h.free x hx).2
  | _ => cases hkey

/-- Two runs have no object in common that is still to store. -/
def Apart (l l' : Proc) : Prop := ∀ key ∈ l.pendingKeys, key ∉ l'.pendingKeys

theorem sealingOutline (hC : C.Lawful) (cfg : Worker C) :
    ProofOutline (completion cfg) (fun _ _ => True) (Shared cfg.sealService)
      (fun w _ l => Local cfg.sealService w l) Apart where
  act := by
    intro s p c sh l hs _ hact
    have hstep := act_ok (p := p) hC hs.shared (hs.proc p) hact
    refine ⟨hstep.shared, hstep.own, fun q hq => ?_, fun q hq => ?_⟩
    · exact (hs.proc q).evolve hstep.evolves fun key hkey =>
        hstep.storage key fun hp => hs.pair p q (fun h => hq h.symm) key hp hkey
    · have hapart : ∀ key ∈ l.pendingKeys, key ∉ (s.procs q).pendingKeys := by
        intro key hkey hkey'
        rcases hstep.keys key hkey with hold | hnew
        · exact hs.pair p q (fun h => hq h.symm) key hold hkey'
        · exact hnew ((hs.proc q).drawn hkey')
      exact ⟨hapart, fun key hkey hkey' => hapart key hkey' hkey⟩
  env := by
    intro s e sh hs _ henv
    have hstep := env_ok hs.shared henv
    exact ⟨hstep.shared, fun q => (hs.proc q).evolve hstep.evolves fun key _ => hstep.storage key (by
      simp [Proc.pendingKeys])⟩

theorem sharedHolds_start {S : SealService C} {now : Int} {requests : List Request} {storage : Storage}
    (hids : (requests.map Request.id).Nodup) (hblank : ∀ r ∈ requests, r.record = .blank)
    (hfresh : ∀ tenant kind uuid, storage (.sibling tenant kind uuid) = none) :
    Holds (Shared S) (fun w _ l => Local S w l) Apart (start now requests storage) where
  shared :=
    { ids := hids
      records := fun r hr => Or.inl (hblank r hr)
      drawn := fun tenant kind uuid h => absurd (hfresh tenant kind uuid) h
      mailed := by simp [start] }
  proc p := trivial
  pair p q _ key hkey := by cases hkey

/-- Between two states of a run nothing is taken back. -/
theorem evolves_of_reaches (hC : C.Lawful) {cfg : Worker C} {s t : System World Proc}
    (hs : Holds (Shared cfg.sealService) (fun w _ l => Local cfg.sealService w l) Apart s)
    (h : Reaches (completion cfg) (fun _ _ => True) s t) : Evolves s.shared t.shared := by
  refine Reaches.relates (R := fun s t : System World Proc => Evolves s.shared t.shared)
    (fun s => Evolves.refl s.shared) (fun _ _ _ h h' => h.trans h') ?_
    (Reaches.strengthen (sealingOutline hC cfg).holds_step h hs)
  rintro s l s' ⟨-, hs⟩ hstep
  cases l with
  | proc p c =>
      obtain ⟨sh, l', hact, rfl⟩ := Program.step_proc hstep
      exact (act_ok (p := p) hC hs.shared (hs.proc p) hact).evolves
  | env e =>
      obtain ⟨sh, henv, rfl⟩ := Program.step_env hstep
      exact (env_ok hs.shared henv).evolves

/-! ## The two checks -/

/-- All five columns are set. -/
def SealRecord.full (c : SealRecord) : Bool :=
  c.signedPdfKey.isSome && c.certificateKey.isSome && c.documentHash.isSome && c.sealSignature.isSome &&
    c.sealKid.isSome

/-- The object is delivered in pieces that make up its bytes. -/
def Streams (getStream : Key → Option (List Bytes)) (storage : Storage) : Prop :=
  ∀ key body, storage key = some body → ∃ stream, getStream key = some stream ∧ stream.flatten = body

/-- The sender's check accepts a sealed document unless it is too large. -/
theorem verify_of_sealed (hC : C.Lawful) {S : SealService C} {requests : List Request} {storage : Storage}
    (hids : (requests.map Request.id).Nodup) {r : Request} (hr : r ∈ requests) (hsealed : Sealed S storage r)
    {getStream : Key → Option (List Bytes)} (hstream : Streams getStream storage) (now : Int) :
    ∃ key pdf, r.record.signedPdfKey = some key ∧ storage key = some pdf ∧
      (pdf.length > MAX_VERIFY_BYTES →
        verify S requests getStream r.id now = .error .payloadTooLarge) ∧
      (pdf.length ≤ MAX_VERIFY_BYTES →
        ∃ result, verify S requests getStream r.id now = .ok result ∧ result.valid = true) := by
  obtain ⟨a, completedAt, hrecord, hid, ⟨-, hcompletedAt⟩, hgenuine, hstored⟩ := hsealed
  obtain ⟨stream, hget, hflatten⟩ := hstream _ _ hstored.signedPdf
  have hfind : (requests.find? fun q => q.id == r.id) = some r :=
    find?_eq_some_of_mem hids hr (by simp) fun q _ hq => eq_of_beq hq
  have htruthy : ∀ text : JsString, text ≠ [] → truthy (some text) = some text := by
    intro text htext
    simp [truthy, htext]
  have hhash_ne : a.documentHash ≠ [] := by
    rw [hgenuine.hash]
    exact hC.sha256Hex_ne _
  have hread := readStream_eq stream (Nat.zero_le MAX_VERIFY_BYTES) []
  rw [hflatten] at hread
  refine ⟨a.signedPdfKey, a.signedPdf, by rw [hrecord]; rfl, hstored.signedPdf, fun hlarge => ?_,
    fun hsmall => ?_⟩
  · rw [if_pos (by omega)] at hread
    simp only [verify, hfind, hrecord, Artifacts.record, htruthy _ hhash_ne,
      htruthy _ hgenuine.signature_ne, htruthy _ hgenuine.kid_ne, hcompletedAt, hget, hread]
  · rw [if_neg (by omega)] at hread
    have hverifies := hgenuine.verifies
    rw [hid] at hverifies
    simp only [verify, hfind, hrecord, Artifacts.record, htruthy _ hhash_ne,
      htruthy _ hgenuine.signature_ne, htruthy _ hgenuine.kid_ne, hcompletedAt, hget, hread,
      List.nil_append, ← hgenuine.hash, hverifies, beq_self_eq_true, Bool.and_self]
    exact ⟨_, rfl, rfl⟩

/-- The public check finds every fingerprint that was sealed, in whatever order the rows are scanned. -/
theorem byHash_of_sealed {S : SealService C} {rows : List Request} {storage : Storage}
    (hrows : ∀ r ∈ rows, r.record = .blank ∨ Sealed S storage r) {r : Request} (hr : r ∈ rows)
    (hsealed : Sealed S storage r) {documentHash : JsString}
    (hhash : r.record.documentHash = some documentHash) (now : Int) :
    (byHash S rows documentHash now).verified = true := by
  have hfound : ∃ row, findSealByHash rows documentHash = some row := by
    obtain ⟨a, completedAt, hrecord, -, ⟨-, hcompletedAt⟩, -, -⟩ := hsealed
    have hmem : (⟨r.id, completedAt, a.sealSignature, a.sealKid⟩ : SealRow) ∈
        rows.filterMap (sealRow documentHash) := by
      refine List.mem_filterMap.mpr ⟨r, hr, ?_⟩
      unfold sealRow
      rw [if_pos hhash, hrecord]
      simp only [Artifacts.record, hcompletedAt]
    unfold findSealByHash
    cases hrows' : rows.filterMap (sealRow documentHash) with
    | nil =>
        rw [hrows'] at hmem
        cases hmem
    | cons row rest => exact ⟨row, rfl⟩
  obtain ⟨row, hrow⟩ := hfound
  -- Whichever row was found, it is sealed under this fingerprint.
  obtain ⟨q, hq, hqrow⟩ := List.mem_filterMap.mp (List.mem_of_mem_head? (Option.mem_def.mpr hrow))
  unfold sealRow at hqrow
  split at hqrow
  · rename_i hqhash
    rcases hrows q hq with hblank | ⟨a, completedAt, hrecord, hid, ⟨-, hcompletedAt⟩, hgenuine, -⟩
    · rw [hblank] at hqhash
      cases hqhash
    · rw [hrecord] at hqrow hqhash
      simp only [Artifacts.record, hcompletedAt] at hqrow
      obtain rfl := Option.some.inj hqrow
      obtain rfl := Option.some.inj hqhash
      have hvalid := hgenuine.verifies
      rw [hid] at hvalid
      simp only [byHash, hrow, hvalid]
  · cases hqrow

/-- **One seal for each request, and it verifies.**  In every run the record of a request is blank or
complete; once complete it stays as it is; it describes the stored bytes, and so does every copy that is
mailed; the public check confirms its fingerprint; and the sender's check confirms it, as long as the
document is not too large for it. -/
theorem one_seal_per_request (hC : C.Lawful) {cfg : Worker C} {now₀ : Int} {requests : List Request}
    {storage : Storage} (hids : (requests.map Request.id).Nodup)
    (hblank : ∀ r ∈ requests, r.record = .blank)
    (hfresh : ∀ tenant kind uuid, storage (.sibling tenant kind uuid) = none) {s t : System World Proc}
    (hs : Reaches (completion cfg) (fun _ _ => True) (start now₀ requests storage) s)
    (ht : Reaches (completion cfg) (fun _ _ => True) s t) :
    (∀ r ∈ s.shared.requests, r.record = .blank ∨ r.record.full = true) ∧
    (∀ copy ∈ s.shared.mailed, ∃ r ∈ s.shared.requests, r.id = copy.requestId ∧
      ∃ key, r.record.signedPdfKey = some key ∧ s.shared.storage key = some copy.signedPdf) ∧
    ∀ r ∈ s.shared.requests, r.record ≠ .blank →
      (∃ r' ∈ t.shared.requests, r'.id = r.id ∧ r'.record = r.record) ∧
      ∃ key pdf signature kid completedAt, r.record.signedPdfKey = some key ∧
        s.shared.storage key = some pdf ∧ r.record.documentHash = some (C.sha256Hex pdf) ∧
        r.record.sealSignature = some signature ∧ r.record.sealKid = some kid ∧
        r.row.completedAt = some completedAt ∧
        cfg.sealService.verify ⟨r.id, completedAt, C.sha256Hex pdf⟩ signature kid = true ∧
        (∀ rows, rows.Perm s.shared.requests → ∀ now,
          (byHash cfg.sealService rows (C.sha256Hex pdf) now).verified = true) ∧
        ∀ getStream, Streams getStream t.shared.storage → ∀ now,
          (pdf.length > MAX_VERIFY_BYTES →
            verify cfg.sealService s.shared.requests getStream r.id now = .error .payloadTooLarge) ∧
          (pdf.length ≤ MAX_VERIFY_BYTES →
            ∃ result, verify cfg.sealService s.shared.requests getStream r.id now = .ok result ∧
              result.valid = true) := by
  have hholds := (sealingOutline hC cfg).holds_of_reaches hs
    (sharedHolds_start hids hblank hfresh)
  have hshared := hholds.shared
  have hev := evolves_of_reaches hC hholds ht
  refine ⟨fun r hr => ?_, fun copy hcopy => ?_, fun r hr hne => ⟨?_, ?_⟩⟩
  · rcases hshared.records r hr with hblank' | ⟨a, _, hrecord, -⟩
    · exact Or.inl hblank'
    · refine Or.inr ?_
      rw [hrecord]
      rfl
  · obtain ⟨r, hr, hid, key, -, hkey, -, hpdf, -⟩ := hshared.mailed copy hcopy
    exact ⟨r, hr, hid, key, hkey, hpdf⟩
  · obtain ⟨r', hr', hrow⟩ := hev.rows r hr
    exact ⟨r', hr', hrow.id, hrow.record hne⟩
  · have hsealed := (hshared.records r hr).resolve_left hne
    have hlater := hsealed.storage hev.storage
    obtain ⟨a, completedAt, hrecord, hid, ⟨-, hcompletedAt⟩, hgenuine, hstored⟩ := id hsealed
    have hverifies := hgenuine.verifies
    rw [hid, hgenuine.hash] at hverifies
    have hhash : r.record.documentHash = some (C.sha256Hex a.signedPdf) := by
      rw [hrecord, ← hgenuine.hash]
      rfl
    refine ⟨a.signedPdfKey, a.signedPdf, a.sealSignature, a.sealKid, completedAt, by rw [hrecord]; rfl,
      hstored.signedPdf, hhash, by rw [hrecord]; rfl, by rw [hrecord]; rfl, hcompletedAt, hverifies,
      fun rows hperm now => ?_, fun getStream hstream now => ?_⟩
    · exact byHash_of_sealed (fun q hq => hshared.records q (hperm.subset hq)) (hperm.symm.subset hr)
        hsealed hhash now
    · obtain ⟨key, pdf, hkey, hpdf, hlarge, hsmall⟩ :=
        verify_of_sealed hC hshared.ids hr hlater hstream now
      rw [hrecord] at hkey
      obtain rfl := Option.some.inj hkey
      obtain rfl := Option.some.inj (hpdf.symm.trans (hev.storage _ _ hstored.signedPdf))
      exact ⟨hlarge, hsmall⟩

/-! ## Two runs -/

/-- A signature is the key and the message, a fingerprint the bytes themselves. -/
def exampleCrypto : NodeCrypto where
  PrivateKey := UInt8
  PublicKey := UInt8
  createPrivateKey pem := pem.head?.map UInt16.toUInt8
  isEd25519 _ := true
  createPublicKey key := key
  sign message key := key :: message
  verify message key signature := some (signature == key :: message)
  sha256Hex bytes := js "#" ++ bytes.map UInt8.toUInt16
  utf8 text := text.map UInt16.toUInt8
  toBase64 bytes := bytes.map UInt8.toUInt16
  fromBase64 text := text.map UInt16.toUInt8

theorem exampleCrypto_lawful : exampleCrypto.Lawful where
  verify_sign message key _ := by simp [exampleCrypto]
  fromBase64_toBase64 bytes := by simp [exampleCrypto, Function.comp_def]
  toBase64_sign_ne message key := by simp [exampleCrypto]
  sha256Hex_ne bytes := by simp [exampleCrypto, show js "#" ≠ [] by decide]

def exampleSealService : SealService exampleCrypto where
  entries := [⟨js "k1", (1 : UInt8), (1 : UInt8)⟩]
  activeKid := js "k1"
  kid_ne := by decide
  sound e he := by
    obtain rfl := List.mem_singleton.mp he
    exact ⟨rfl, rfl⟩
  active := by simp

/-- A document is saved with the image in it and the number of the save. -/
def exampleWorker : Worker exampleCrypto where
  sealService := exampleSealService
  loadPdf _ := some examplePages
  embedPng _ := some exampleTools
  savePdf save pdfBytes signaturePng _ := pdfBytes ++ signaturePng ++ [save.toUInt8]
  buildCertificatePdf save input := some (exampleCrypto.utf8 input.documentHash ++ [save.toUInt8])

/-- `a`, `b`, `c` and so on. -/
def signerKey (id : Nat) : JsString := [0x61 + id.toUInt16]

/-- A signer who has signed. -/
def exampleSigner (id : Nat) : Recipient where
  id := id
  email := signerKey id ++ js "@example.uz"
  name := none
  role := .signer
  routingOrder := 1
  recipientKey := signerKey id
  status := .completed
  signingTokenHash := none
  sentAt := some 0
  viewedAt := some 1
  consentAt := some 2
  completedAt := some 3
  lastRemindedAt := none
  reminderCount := 0
  signatureMethod := some .uploaded
  signatureImageKey := some id
  fieldValues _ := none
  viewedIp := none
  viewedUserAgent := none
  signerIp := none
  signerUserAgent := none

/-- A completed envelope of so many signers, each with one box to sign in. -/
def exampleRequest (signers : Nat) : Request where
  id := js "r1"
  row :=
    { documentName := js "Contract"
      fields := (List.range signers).map fun id =>
        { exampleField .signature (1 / 10) with recipientKey := signerKey id }
      routingMode := .parallel
      recipientEmail := signerKey 0 ++ js "@example.uz"
      recipientName := none
      signingTokenHash := none
      status := .completed
      expiresAt := 100
      sentAt := 0
      viewedAt := some 1
      consentAt := none
      completedAt := some 3
      voidedAt := none
      expiredNotifiedAt := none
      signatureMethod := none
      signatureImageKey := none
      fieldValues := fun _ => none
      viewedIp := none
      viewedUserAgent := none
      signerIp := none
      signerUserAgent := none
      senderEmail := none
      emailSubject := none
      emailMessage := none }
  recipients := (List.range signers).map exampleSigner
  documentKey := some [js "tenants", js "t1", js "documents", js "d1"]
  record := .blank
  completionEmailedAt := none

/-- The source document, and the image that everyone signs with. -/
def exampleStorage (source image : Bytes) : Storage
  | .document _ => some source
  | .image _ => some image
  | .sibling _ _ _ => none

/-- So many steps of a run. -/
def steps (p n : Nat) : List (Label Choice Event) := List.replicate n (.proc p .next)

def call (p : Nat) : Label Choice Event := .proc p (.call (js "r1"))

/-- Both runs seal; the second stores its certificate first, and is the first to record. -/
def exampleRace : List (Label Choice Event) :=
  call 0 :: call 1 :: steps 0 6 ++ steps 1 5 ++ .proc 1 .other :: steps 1 3 ++ steps 0 3 ++ steps 1 4

/-- Two runs race, and only the one that recorded mails. -/
theorem one_seal_per_request_race :
    ∃ s, (completion exampleWorker).run
        (start 4 [exampleRequest 1] (exampleStorage [1, 2, 3] [4, 5])) exampleRace = some s ∧
      (s.shared.mailed.map SignedCopy.signedPdf) = [[1, 2, 3, 4, 5, 2]] ∧
      ∃ r ∈ s.shared.requests, ∃ result,
        verify exampleWorker.sealService s.shared.requests
          (fun key => (s.shared.storage key).map fun body => [body]) r.id 5 = .ok result ∧
        result.valid = true := by
  let key : Key := .sibling (js "t1") (js "signed") 2
  have hrun : ((completion exampleWorker).run
      (start 4 [exampleRequest 1] (exampleStorage [1, 2, 3] [4, 5])) exampleRace).map
        (fun s => (s.shared.mailed.map SignedCopy.signedPdf,
          s.shared.requests.map fun r => r.record.signedPdfKey, s.shared.storage key)) =
      some ([[1, 2, 3, 4, 5, 2]], [some key], some [1, 2, 3, 4, 5, 2]) := by
    decide +kernel
  obtain ⟨s, hs, heq⟩ := Option.map_eq_some_iff.mp hrun
  obtain ⟨hmailed, hkeys, hstored⟩ := by simpa only [Prod.mk.injEq] using heq
  obtain ⟨r, hrows, hkey⟩ := List.map_eq_singleton_iff.mp hkeys
  have hr : r ∈ s.shared.requests := by simp [hrows]
  have hne : r.record ≠ .blank := fun hblank => by
    rw [hblank] at hkey
    cases hkey
  obtain ⟨-, -, hsealed⟩ := one_seal_per_request exampleCrypto_lawful (by decide) (by simp [exampleRequest])
    (fun _ _ _ => rfl) (Reaches.of_run (fun _ _ _ => trivial) hs) (Reaches.refl s)
  obtain ⟨-, key', pdf, -, -, -, hkey', hpdf, -, -, -, -, -, -, hverify⟩ := hsealed r hr hne
  obtain rfl : key' = key := Option.some.inj (hkey'.symm.trans hkey)
  obtain rfl := Option.some.inj (hpdf.symm.trans hstored)
  refine ⟨s, hs, hmailed, r, hr, (hverify _ ?_ 5).2 (by decide)⟩
  intro key body hbody
  exact ⟨[body], by simp [hbody], by simp⟩

/-- The document after so many passes. -/
def stamped (source image : Bytes) : Nat → Bytes
  | 0 => source
  | n + 1 => stamped source image n ++ image ++ [n.toUInt8]

theorem length_stamped (source image : Bytes) (n : Nat) :
    (stamped source image n).length = source.length + n * (image.length + 1) := by
  induction n with
  | zero => simp [stamped]
  | succ n ih =>
      simp only [stamped, List.length_append, ih, List.length_singleton]
      ring

/-- A run on an envelope of twenty-one signers, whatever they sign and with. -/
theorem run_large (source image : Bytes) :
    ∃ s, (completion exampleWorker).run
        (start 4 [exampleRequest 21] (exampleStorage source image)) (call 0 :: steps 0 29) = some s ∧
      ∃ r, s.shared.requests = [r] ∧ ∃ key, r.record.signedPdfKey = some key ∧
        s.shared.storage key = some (stamped source image 21) :=
  ⟨_, rfl, _, rfl, .sibling (js "t1") (js "signed") 0, rfl, rfl⟩

/-- Bytes with no pattern that would let them be packed. -/
def noise (n : Nat) : Bytes := (List.range n).map fun i => UInt8.ofNat (i * i / 7)

theorem length_noise (n : Nat) : (noise n).length = n := by
  rw [noise, List.length_map, List.length_range]

/-- How a PNG of 750 by 750 pixels begins. -/
def pngHeader : Bytes :=
  PNG_SIGNATURE ++ [0, 0, 0, 13, 0x49, 0x48, 0x44, 0x52, 0, 0, 0x02, 0xEE, 0, 0, 0x02, 0xEE, 8, 6, 0, 0, 0]

theorem pngDimensions_header (rest : Bytes) : pngDimensions (pngHeader ++ rest) = some (750, 750) := by
  have hlength : 24 ≤ pngHeader.length + rest.length := by
    rw [show pngHeader.length = 29 from rfl]
    omega
  have hpng : isPng (pngHeader ++ rest) = true := rfl
  have hchunk : ((pngHeader ++ rest).drop 12).take 4 = [0x49, 0x48, 0x44, 0x52] := rfl
  have hwidth : readUInt32BE (pngHeader ++ rest) 16 = 750 := rfl
  have hheight : readUInt32BE (pngHeader ++ rest) 20 = 750 := rfl
  simp [pngDimensions, hpng, hlength, hchunk, hwidth, hheight]

/-- The data URL an image is sent in. -/
def imageUrl (image : Bytes) : JsString := js "data:image/png;base64," ++ Lib.Base64.encode .base64 image

/-- An image that just fits the contract is taken. -/
theorem decodeSignaturePng_large {n : Nat} (h : n ≤ 2249953) :
    (imageUrl (pngHeader ++ noise n)).length ≤ 3000000 ∧
      decodeSignaturePng Lib.Base64.decode (imageUrl (pngHeader ++ noise n)) = some (pngHeader ++ noise n) := by
  have hheader : pngHeader.length = 29 := rfl
  have hlength_header : (js "data:image/png;base64,").length = 22 := by decide
  have hlength : (imageUrl (pngHeader ++ noise n)).length ≤ 3000000 := by
    rw [imageUrl, List.length_append, hlength_header, (Lib.Base64.length_encode _).1, List.length_append, hheader,
      length_noise]
    omega
  have hread := Lib.Base64.decode_encode .base64 (pngHeader ++ noise n)
  have htaken := Ink.decodeSignaturePng_eq (Ink.bytes_of_admitted hlength)
  rw [hread, pngDimensions_header, Option.bind_some, if_neg (by decide)] at htaken
  exact ⟨hlength, htaken⟩

/-- A document of 20 MiB, and twenty-one signers with an image that just fits the contract: the request is
sealed, and the sender's check refuses it. -/
theorem verify_refuses_large :
    ∃ dataUrl image, (js "data:image/png;base64," <+: dataUrl ∧ dataUrl.length ≤ 3000000) ∧
      decodeSignaturePng Lib.Base64.decode dataUrl = some image ∧
    ∃ source, source.length = 20 * 1024 * 1024 ∧
    ∃ s, Reaches (completion exampleWorker) (fun _ _ => True)
        (start 4 [exampleRequest 21] (exampleStorage source image)) s ∧
      ∃ r ∈ s.shared.requests, r.record.full = true ∧
        ∀ getStream, Streams getStream s.shared.storage → ∀ now,
          verify exampleWorker.sealService s.shared.requests getStream r.id now = .error .payloadTooLarge := by
  obtain ⟨hadmitted, htaken⟩ := decodeSignaturePng_large (le_refl 2249953)
  have hbegins : js "data:image/png;base64," <+: imageUrl (pngHeader ++ noise 2249953) := List.prefix_append _ _
  have hsource := length_noise (20 * 1024 * 1024)
  have himage : (pngHeader ++ noise 2249953).length = 2249982 := by
    rw [List.length_append, length_noise]
    rfl
  generalize noise (20 * 1024 * 1024) = source at hsource
  generalize imageUrl (pngHeader ++ noise 2249953) = dataUrl at hbegins hadmitted htaken
  generalize pngHeader ++ noise 2249953 = image at htaken himage
  obtain ⟨s, hrun, r, hrows, key, hkey, hstored⟩ := run_large source image
  have hs : Reaches (completion exampleWorker) (fun _ _ => True) _ s :=
    Reaches.of_run (fun _ _ _ => trivial) hrun
  have hshared := ((sealingOutline exampleCrypto_lawful exampleWorker).holds_of_reaches hs
    (sharedHolds_start (by decide) (by simp [exampleRequest]) fun _ _ _ => rfl)).shared
  have hr : r ∈ s.shared.requests := by simp [hrows]
  have hsealed : Sealed exampleSealService s.shared.storage r :=
    (hshared.records r hr).resolve_left fun hblank => by
      rw [hblank] at hkey
      cases hkey
  refine ⟨dataUrl, image, ⟨hbegins, hadmitted⟩, htaken, source, hsource, s, hs, r, hr, ?_,
    fun getStream hstream now => ?_⟩
  · obtain ⟨a, _, hrecord, -⟩ := hsealed
    rw [hrecord]
    rfl
  · obtain ⟨key', pdf, hkey', hpdf, hlarge, -⟩ :=
      verify_of_sealed exampleCrypto_lawful hshared.ids hr hsealed hstream now
    obtain rfl : key' = key := Option.some.inj (hkey'.symm.trans hkey)
    have hlength : pdf.length = 20 * 1024 * 1024 + 21 * (2249982 + 1) := by
      rw [Option.some.inj (hpdf.symm.trans hstored), length_stamped, hsource, himage]
    refine hlarge ?_
    rw [hlength]
    decide

end ESignSoft.Sealing
