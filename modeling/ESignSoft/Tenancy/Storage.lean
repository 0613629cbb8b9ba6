import ESignSoft.Lib.Isolation
import ESignSoft.Lib.JsText
import Mathlib.Logic.Function.Basic

/-!
# Documents and the bucket they are in

All bytes are in one bucket, under keys that begin with the workspace they belong to.  A request stores bytes
first and commits the row that names them after, and may be gone in between; the worker reads what the rows of a
workspace name, without a check of its own, and stores what it makes beside it.

* `siblingKey_of_own` — a sibling of a workspace's key is a key the workspace could have made itself;
* `own_unique` — no key is two workspaces' own;
* `every_row_has_its_bytes` — after any run, every key on a row leads to bytes, those of a document are the ones
  its row describes, and copies that were made can be sent again;
* `accesses_confined` — nothing done for a workspace ever touches an object of another.
-/

namespace ESignSoft.Tenancy

open ESignSoft.Lib ESignSoft.Lib.JsText

abbrev Bytes := List UInt8

/-- The text of a UUID, of which only this matters: no slash is in it. -/
structure Uuid where
  text : JsString
  clean : 0x2F ∉ text
  deriving DecidableEq

/-! ## Keys -/

/-- What the keys of a workspace begin with. -/
def home (tenant : Uuid) : JsString := js "tenants/" ++ (tenant.text ++ js "/")

def newKey (tenant : Uuid) (kind : JsString) (uuid : Uuid) : JsString := home tenant ++ (kind ++ (js "/" ++ uuid.text))

def assertOwnKey (tenant : Uuid) (key : JsString) : Bool := (home tenant).isPrefixOf key

/-- The worker's; `none` where it throws. -/
def siblingKey (existingKey kind : JsString) (uuid : Uuid) : Option JsString :=
  match existingKey.splitOn 0x2F with
  | root :: tenant :: _ :: _ =>
      if root = js "tenants" then some (root ++ js "/" ++ tenant ++ js "/" ++ kind ++ js "/" ++ uuid.text) else none
  | _ => none

theorem assertOwnKey_iff {tenant : Uuid} {key : JsString} :
    assertOwnKey tenant key = true ↔ ∃ rest, key = home tenant ++ rest := by
  unfold assertOwnKey
  rw [List.isPrefixOf_iff_prefix]
  exact ⟨fun ⟨rest, h⟩ => ⟨rest, h.symm⟩, fun ⟨rest, h⟩ => ⟨rest, h.symm⟩⟩

theorem assertOwnKey_newKey (tenant : Uuid) (kind : JsString) (uuid : Uuid) :
    assertOwnKey tenant (newKey tenant kind uuid) = true := assertOwnKey_iff.mpr ⟨_, rfl⟩

/-- A key of a workspace, split at its slashes. -/
theorem splitOn_own (tenant : Uuid) (rest : JsString) :
    (home tenant ++ rest).splitOn 0x2F = js "tenants" :: tenant.text :: rest.splitOn 0x2F := by
  have hkey : home tenant ++ rest = js "tenants" ++ 0x2F :: (tenant.text ++ 0x2F :: rest) := by
    unfold home
    rw [show js "tenants/" = js "tenants" ++ [0x2F] from rfl, show js "/" = [0x2F] from rfl]
    simp only [List.append_assoc, List.cons_append, List.nil_append]
  have hroot : (js "tenants").splitOn 0x2F = [js "tenants"] := List.splitOn_eq_singleton (by decide)
  have htenant : tenant.text.splitOn 0x2F = [tenant.text] := List.splitOn_eq_singleton tenant.clean
  rw [hkey, List.splitOn_append_cons_self, hroot, List.splitOn_append_cons_self, htenant]
  rfl

/-- **A sibling stays at home.** -/
theorem siblingKey_of_own {tenant : Uuid} {existingKey : JsString} (h : assertOwnKey tenant existingKey = true)
    (kind : JsString) (uuid : Uuid) : siblingKey existingKey kind uuid = some (newKey tenant kind uuid) := by
  obtain ⟨rest, rfl⟩ := assertOwnKey_iff.mp h
  unfold siblingKey
  rw [splitOn_own]
  cases hrest : rest.splitOn 0x2F with
  | nil => exact absurd hrest (List.splitOn_ne_nil _ _)
  | cons first more =>
      show (if js "tenants" = js "tenants" then _ else _) = _
      rw [if_pos rfl, Option.some_inj]
      unfold newKey home
      rw [show js "tenants/" = js "tenants" ++ js "/" from rfl]
      simp only [List.append_assoc]

/-- **No key is two workspaces' own.** -/
theorem own_unique {tenant other : Uuid} {key : JsString} (h : assertOwnKey tenant key = true)
    (h' : assertOwnKey other key = true) : tenant = other := by
  obtain ⟨rest, hrest⟩ := assertOwnKey_iff.mp h
  obtain ⟨rest', hrest'⟩ := assertOwnKey_iff.mp h'
  have hsplit := congrArg (fun key : JsString => key.splitOn 0x2F) (hrest.symm.trans hrest')
  simp only [splitOn_own, List.cons.injEq] at hsplit
  cases tenant
  cases other
  congr 1
  exact hsplit.2.1

/-! ## Documents -/

structure Document where
  tenant : Uuid
  name : JsString
  contentType : JsString
  byteSize : Nat
  sha256 : JsString
  storageKey : JsString

/-- `%PDF-`. -/
def PDF_MAGIC : Bytes := [0x25, 0x50, 0x44, 0x46, 0x2D]

/-- Path separators and control characters. -/
def isStripped (u : UInt16) : Bool := u == 0x5C || u == 0x2F || u ≤ 0x1F

/-- A human-readable name. -/
def sanitizeName (name : JsString) : JsString :=
  let cleaned := trim (name.filter fun u => !isStripped u)
  (if cleaned = [] then js "document.pdf" else cleaned).take 200

variable (sha256 : Bytes → JsString)

/-- The row of an upload; `none` where only PDF files are accepted. -/
def create (tenant : Uuid) (name : JsString) (bytes : Bytes) (uuid : Uuid) : Option Document :=
  if bytes.length = 0 ∨ bytes.take 5 ≠ PDF_MAGIC then none
  else some
    { tenant := tenant
      name := sanitizeName name
      contentType := js "application/pdf"
      byteSize := bytes.length
      sha256 := sha256 bytes
      storageKey := newKey tenant (js "documents") uuid }

/-! ## The bucket and the rows -/

/-- What a request or a job has stored and not yet recorded. -/
inductive Pending
  | idle
  | document (row : Document)
  | keys (tenant : Uuid) (stored : List JsString)

structure Vault where
  bucket : JsString → Option Bytes
  documents : List Document
  /-- The key columns of recipients and requests: signature images, signed copies, certificates. -/
  columns : List (Uuid × JsString)
  pending : Nat → Pending

def Vault.empty : Vault := ⟨fun _ => none, [], [], fun _ => .idle⟩

inductive VaultEvent
  | upload (p : Nat) (tenant : Uuid) (name : JsString) (bytes : Bytes) (uuid : Uuid)
  /-- A signer's image. -/
  | submit (p : Nat) (tenant : Uuid) (png : Bytes) (uuid : Uuid)
  /-- The worker's: `stamp` makes the signed copy and the certificate of what it has read. -/
  | complete (p : Nat) (tenant : Uuid) (document : Nat) (images : List Nat) (stamp : Bytes → List Bytes → Bytes × Bytes)
      (signedUuid certificateUuid : Uuid)
  /-- The worker's, where the copies were made and not sent: the two columns name what it reads again. -/
  | deliver (tenant : Uuid) (signed certificate : Nat)
  /-- The row that names what was stored is committed. -/
  | record (p : Nat)
  /-- The process dies, or its claim is lost. -/
  | abandon (p : Nat)
  | download (tenant : Uuid) (document : Nat)
  | readArtifact (tenant : Uuid) (column : Nat)

inductive Outcome
  | ok
  | badRequest
  | notFound
  | bytes (b : Bytes)
  | attached (signedPdf certificatePdf : Bytes)

/-- What is answered, and which objects were touched for it. -/
structure VaultReply where
  outcome : Outcome
  accesses : List JsString

/-- A document as the policies let a workspace find it. -/
def Vault.findDocument (s : Vault) (tenant : Uuid) (i : Nat) : Option Document :=
  s.documents[i]?.filter fun d => d.tenant == tenant

def Vault.findKey (s : Vault) (tenant : Uuid) (i : Nat) : Option JsString :=
  (s.columns[i]?.filter fun column => column.1 == tenant).map Prod.snd

def Vault.put (s : Vault) (key : JsString) (body : Bytes) : Vault :=
  { s with bucket := Function.update s.bucket key (some body) }

def Vault.setPending (s : Vault) (p : Nat) (pending : Pending) : Vault :=
  { s with pending := Function.update s.pending p pending }

/-- `getStream`: refused outside the workspace, and the same answer where there is no object. -/
def Vault.getStream (s : Vault) (tenant : Uuid) (key : JsString) : VaultReply :=
  if assertOwnKey tenant key then
    match s.bucket key with
    | some b => ⟨.bytes b, [key]⟩
    | none => ⟨.notFound, [key]⟩
  else ⟨.notFound, []⟩

/-- The worker's run over a document: the source and the images read, the copies stored. -/
def Vault.complete (s : Vault) (p : Nat) (tenant : Uuid) (row : Document) (imageKeys : List JsString)
    (stamp : Bytes → List Bytes → Bytes × Bytes) (signedUuid certificateUuid : Uuid) : Vault × VaultReply :=
  let read := row.storageKey :: imageKeys
  match s.bucket row.storageKey, imageKeys.mapM s.bucket, siblingKey row.storageKey (js "signed") signedUuid,
      siblingKey row.storageKey (js "certificates") certificateUuid with
  | some source, some images, some signedKey, some certificateKey =>
      let made := stamp source images
      (((s.put signedKey made.1).put certificateKey made.2).setPending p (.keys tenant [signedKey, certificateKey]),
        ⟨.ok, read ++ [signedKey, certificateKey]⟩)
  | _, _, _, _ => (s, ⟨.notFound, read⟩)

/-- The worker's run over what it has already made: both copies are read and sent as they are. -/
def Vault.deliver (s : Vault) (signedKey certificateKey : JsString) : VaultReply :=
  match s.bucket signedKey, s.bucket certificateKey with
  | some signedPdf, some certificatePdf => ⟨.attached signedPdf certificatePdf, [signedKey, certificateKey]⟩
  | _, _ => ⟨.notFound, [signedKey, certificateKey]⟩

def vaultStep (s : Vault) : VaultEvent → Option (Vault × VaultReply)
  | .upload p tenant name bytes uuid =>
      match s.pending p, create sha256 tenant name bytes uuid with
      | .idle, none => some (s, ⟨.badRequest, []⟩)
      | .idle, some row =>
          if assertOwnKey tenant row.storageKey then
            some ((s.put row.storageKey bytes).setPending p (.document row), ⟨.ok, [row.storageKey]⟩)
          else some (s, ⟨.notFound, []⟩)
      | _, _ => none
  | .submit p tenant png uuid =>
      match s.pending p with
      | .idle =>
          let key := newKey tenant (js "signatures") uuid
          if assertOwnKey tenant key then
            some ((s.put key png).setPending p (.keys tenant [key]), ⟨.ok, [key]⟩)
          else some (s, ⟨.notFound, []⟩)
      | _ => none
  | .complete p tenant document images stamp signedUuid certificateUuid =>
      match s.pending p, s.findDocument tenant document with
      | .idle, some row =>
          some (s.complete p tenant row (images.filterMap (s.findKey tenant)) stamp signedUuid certificateUuid)
      | .idle, none => some (s, ⟨.notFound, []⟩)
      | _, _ => none
  | .deliver tenant signed certificate =>
      match s.findKey tenant signed, s.findKey tenant certificate with
      | some signedKey, some certificateKey => some (s, s.deliver signedKey certificateKey)
      | _, _ => some (s, ⟨.notFound, []⟩)
  | .record p =>
      match s.pending p with
      | .document row => some ({ s with documents := s.documents ++ [row] }.setPending p .idle, ⟨.ok, []⟩)
      | .keys tenant stored =>
          some ({ s with columns := s.columns ++ stored.map fun key => (tenant, key) }.setPending p .idle, ⟨.ok, []⟩)
      | .idle => none
  | .abandon p => some (s.setPending p .idle, ⟨.ok, []⟩)
  | .download tenant document =>
      match s.findDocument tenant document with
      | some row => some (s, s.getStream tenant row.storageKey)
      | none => some (s, ⟨.notFound, []⟩)
  | .readArtifact tenant column =>
      match s.findKey tenant column with
      | some key => some (s, s.getStream tenant key)
      | none => some (s, ⟨.notFound, []⟩)

/-- The keys an event would store under. -/
def minted (s : Vault) : VaultEvent → List JsString
  | .upload _ tenant _ _ uuid => [newKey tenant (js "documents") uuid]
  | .submit _ tenant _ uuid => [newKey tenant (js "signatures") uuid]
  | .complete _ tenant document _ _ signedUuid certificateUuid =>
      match s.findDocument tenant document with
      | some row => (siblingKey row.storageKey (js "signed") signedUuid).toList ++
          (siblingKey row.storageKey (js "certificates") certificateUuid).toList
      | none => []
  | _ => []

/-- A random UUID is not drawn twice. -/
def uuidsFresh (s : Vault) (e : VaultEvent) : Bool := (minted s e).all fun key => (s.bucket key).isNone

/-- For which workspace an event happens. -/
def VaultEvent.tenant : VaultEvent → Option Uuid
  | .upload _ tenant _ _ _ => some tenant
  | .submit _ tenant _ _ => some tenant
  | .complete _ tenant _ _ _ _ _ => some tenant
  | .deliver tenant _ _ => some tenant
  | .download tenant _ => some tenant
  | .readArtifact tenant _ => some tenant
  | .record _ => none
  | .abandon _ => none

/-! ## Bytes before rows -/

section

variable {sha256} {s s' : Vault} {e : VaultEvent} {r : VaultReply} {tenant : Uuid} {key : JsString}

/-- The key is the workspace's own, and there is an object under it. -/
structure Held (bucket : JsString → Option Bytes) (tenant : Uuid) (key : JsString) : Prop where
  own : assertOwnKey tenant key = true
  stored : ∃ bytes, bucket key = some bytes

/-- The object a document leads to is the one its row describes. -/
structure Intact (sha256 : Bytes → JsString) (bucket : JsString → Option Bytes) (d : Document) : Prop where
  own : assertOwnKey d.tenant d.storageKey = true
  stored : ∃ bytes, bucket d.storageKey = some bytes ∧ PDF_MAGIC <+: bytes ∧ bytes.length = d.byteSize ∧
    sha256 bytes = d.sha256

/-- Nothing that was stored is lost or replaced. -/
def Keeps (bucket bucket' : JsString → Option Bytes) : Prop := ∀ key b, bucket key = some b → bucket' key = some b

theorem Keeps.trans {a b c : JsString → Option Bytes} (hab : Keeps a b) (hbc : Keeps b c) : Keeps a c :=
  fun key body h => hbc key body (hab key body h)

theorem Held.mono {bucket bucket' : JsString → Option Bytes} (h : Held bucket tenant key)
    (hkeeps : Keeps bucket bucket') :
    Held bucket' tenant key := by
  obtain ⟨hown, bytes, hbytes⟩ := h
  exact ⟨hown, bytes, hkeeps key bytes hbytes⟩

theorem Intact.mono {bucket bucket' : JsString → Option Bytes} {d : Document} (h : Intact sha256 bucket d)
    (hkeeps : Keeps bucket bucket') : Intact sha256 bucket' d := by
  obtain ⟨hown, bytes, hbytes, hrest⟩ := h
  exact ⟨hown, bytes, hkeeps _ bytes hbytes, hrest⟩

theorem bucket_put (s : Vault) (key : JsString) (body : Bytes) : (s.put key body).bucket key = some body :=
  Function.update_self _ _ _

theorem bucket_put_of_ne {key' : JsString} (h : key' ≠ key) (s : Vault) (body : Bytes) :
    (s.put key body).bucket key' = s.bucket key' := Function.update_of_ne h _ _

/-- Storing under a key that is not taken. -/
theorem keeps_put (hfree : s.bucket key = none) (body : Bytes) : Keeps s.bucket (s.put key body).bucket := by
  intro key' b hb
  have hne : key' ≠ key := by
    rintro rfl
    rw [hfree] at hb
    cases hb
  rw [bucket_put_of_ne hne]
  exact hb

/-- What a process has stored is there for the row it will commit. -/
def Pending.Backed (sha256 : Bytes → JsString) (bucket : JsString → Option Bytes) : Pending → Prop
  | .idle => True
  | .document row => Intact sha256 bucket row
  | .keys tenant stored => ∀ key ∈ stored, Held bucket tenant key

structure Backed (sha256 : Bytes → JsString) (s : Vault) : Prop where
  documents : ∀ d ∈ s.documents, Intact sha256 s.bucket d
  columns : ∀ column ∈ s.columns, Held s.bucket column.1 column.2
  pending : ∀ p, (s.pending p).Backed sha256 s.bucket

theorem Pending.Backed.mono {bucket bucket' : JsString → Option Bytes} {pending : Pending}
    (h : pending.Backed sha256 bucket) (hkeeps : Keeps bucket bucket') : pending.Backed sha256 bucket' := by
  cases pending with
  | idle => trivial
  | document row => exact Intact.mono h hkeeps
  | keys tenant stored => exact fun key hkey => (h key hkey).mono hkeeps

/-- Storing more takes nothing away. -/
theorem Backed.mono {bucket : JsString → Option Bytes} (h : Backed sha256 s) (hkeeps : Keeps s.bucket bucket) :
    Backed sha256 { s with bucket := bucket } where
  documents d hd := (h.documents d hd).mono hkeeps
  columns column hcolumn := (h.columns column hcolumn).mono hkeeps
  pending p := (h.pending p).mono hkeeps

theorem Backed.setPending (h : Backed sha256 s) (p : Nat) {pending : Pending}
    (hpending : pending.Backed sha256 s.bucket) : Backed sha256 (s.setPending p pending) where
  documents := h.documents
  columns := h.columns
  pending q := by
    unfold Vault.setPending
    by_cases hq : q = p
    · subst hq
      simpa using hpending
    · simpa [hq] using h.pending q

theorem backed_empty : Backed sha256 Vault.empty where
  documents := by simp [Vault.empty]
  columns := by simp [Vault.empty]
  pending _ := trivial

theorem intact_create {name : JsString} {bytes : Bytes} {uuid : Uuid} {row : Document}
    (h : create sha256 tenant name bytes uuid = some row) :
    row.storageKey = newKey tenant (js "documents") uuid ∧
      ∀ bucket : JsString → Option Bytes, bucket row.storageKey = some bytes → Intact sha256 bucket row := by
  unfold create at h
  split at h
  · cases h
  · rename_i hpdf
    cases h
    refine ⟨rfl, fun bucket hbytes => ⟨assertOwnKey_newKey _ _ _, bytes, hbytes, ?_, rfl, rfl⟩⟩
    have hmagic : bytes.take 5 = PDF_MAGIC := by
      by_contra hne
      exact hpdf (.inr hne)
    rw [← hmagic]
    exact List.take_prefix 5 bytes

theorem findDocument_mem {i : Nat} {row : Document} (h : s.findDocument tenant i = some row) :
    row ∈ s.documents ∧ row.tenant = tenant := by
  obtain ⟨hrow, htenant⟩ := Option.filter_eq_some_iff.mp h
  exact ⟨List.mem_of_getElem? hrow, beq_iff_eq.mp htenant⟩

theorem findKey_mem {i : Nat} (h : s.findKey tenant i = some key) : (tenant, key) ∈ s.columns := by
  obtain ⟨⟨t, k⟩, hcolumn, rfl⟩ := Option.map_eq_some_iff.mp h
  obtain ⟨hmem, htenant⟩ := Option.filter_eq_some_iff.mp hcolumn
  obtain rfl : t = tenant := beq_iff_eq.mp htenant
  exact List.mem_of_getElem? hmem

theorem findKey_of_column {i : Nat} (h : s.columns[i]? = some (tenant, key)) : s.findKey tenant i = some key := by
  unfold Vault.findKey
  rw [h, Option.filter_some, if_pos (beq_self_eq_true _)]
  rfl

/-- What a run of the worker leaves behind, and what it has touched. -/
theorem complete_spec {row : Document} {imageKeys : List JsString} {signedUuid certificateUuid : Uuid} (p : Nat)
    (stamp : Bytes → List Bytes → Bytes × Bytes) (h : Backed sha256 s)
    (hown : assertOwnKey tenant row.storageKey = true)
    (himages : ∀ key ∈ imageKeys, assertOwnKey tenant key = true)
    (hsigned : s.bucket (newKey tenant (js "signed") signedUuid) = none)
    (hcertificate : s.bucket (newKey tenant (js "certificates") certificateUuid) = none) :
    Backed sha256 (s.complete p tenant row imageKeys stamp signedUuid certificateUuid).1 ∧
      ∀ key ∈ (s.complete p tenant row imageKeys stamp signedUuid certificateUuid).2.accesses,
        assertOwnKey tenant key = true := by
  have hread : ∀ key ∈ row.storageKey :: imageKeys, assertOwnKey tenant key = true := by
    intro key hkey
    rcases List.mem_cons.mp hkey with rfl | hmem
    · exact hown
    · exact himages key hmem
  unfold Vault.complete
  rw [siblingKey_of_own hown, siblingKey_of_own hown]
  split
  · rename_i source images signedKey certificateKey _ _ hsignedKey hcertificateKey
    obtain rfl := Option.some.inj hsignedKey
    obtain rfl := Option.some.inj hcertificateKey
    have hne : newKey tenant (js "certificates") certificateUuid ≠ newKey tenant (js "signed") signedUuid := by
      intro heq
      have hkind : js "certificates" ++ (js "/" ++ certificateUuid.text) = js "signed" ++ (js "/" ++ signedUuid.text) :=
        List.append_cancel_left heq
      cases hkind
    have hfree : (s.put (newKey tenant (js "signed") signedUuid) (stamp source images).1).bucket
        (newKey tenant (js "certificates") certificateUuid) = none := by
      rw [bucket_put_of_ne hne]
      exact hcertificate
    have hfirst := keeps_put hsigned (stamp source images).1
    have hsecond := keeps_put hfree (stamp source images).2
    refine ⟨Backed.setPending (h.mono (hfirst.trans hsecond)) p ?_, ?_⟩
    · intro key hkey
      simp only [List.mem_cons, List.not_mem_nil, or_false] at hkey
      rcases hkey with rfl | rfl
      · exact ⟨assertOwnKey_newKey _ _ _, _, hsecond _ _ (bucket_put _ _ _)⟩
      · exact ⟨assertOwnKey_newKey _ _ _, _, bucket_put _ _ _⟩
    · intro key hkey
      rcases List.mem_append.mp hkey with hmem | hmem
      · exact hread key hmem
      · simp only [List.mem_cons, List.not_mem_nil, or_false] at hmem
        rcases hmem with rfl | rfl
        · exact assertOwnKey_newKey _ _ _
        · exact assertOwnKey_newKey _ _ _
  · exact ⟨h, hread⟩

/-- Every object touched is the workspace's own. -/
def Confined (entry : VaultEvent × VaultReply) : Prop :=
  ∀ tenant, entry.1.tenant = some tenant → ∀ key ∈ entry.2.accesses, assertOwnKey tenant key = true

theorem confined_getStream (s : Vault) (tenant : Uuid) (key : JsString) :
    ∀ touched ∈ (s.getStream tenant key).accesses, assertOwnKey tenant touched = true := by
  intro touched htouched
  unfold Vault.getStream at htouched
  split at htouched
  · rename_i hown
    split at htouched
    · obtain rfl := List.mem_singleton.mp htouched
      exact hown
    · obtain rfl := List.mem_singleton.mp htouched
      exact hown
  · cases htouched

theorem accesses_deliver (s : Vault) (signedKey certificateKey : JsString) :
    (s.deliver signedKey certificateKey).accesses = [signedKey, certificateKey] := by
  unfold Vault.deliver
  split <;> rfl

theorem backed_store {body : Bytes} (h : Backed sha256 s) (p : Nat) {pending : Pending} (hfree : s.bucket key = none)
    (hpending : pending.Backed sha256 (s.put key body).bucket) :
    Backed sha256 ((s.put key body).setPending p pending) :=
  Backed.setPending (h.mono (keeps_put hfree body)) p hpending

/-- **One step**: what the rows and the open processes name stays backed, and only the workspace's own objects are
touched. -/
theorem backed_step (h : Backed sha256 s) (hfresh : uuidsFresh s e = true)
    (hstep : vaultStep sha256 s e = some (s', r)) : Backed sha256 s' ∧ Confined (e, r) := by
  have hminted : ∀ key ∈ minted s e, s.bucket key = none := by
    intro key hkey
    exact Option.isNone_iff_eq_none.mp (List.all_eq_true.mp hfresh key hkey)
  cases e with
  | upload p tenant name bytes uuid =>
      simp only [vaultStep] at hstep
      split at hstep
      · cases hstep
        exact ⟨h, fun _ _ key hkey => by cases hkey⟩
      · rename_i row _ hcreate
        obtain ⟨hkey, hintact⟩ := intact_create hcreate
        have hown : assertOwnKey tenant row.storageKey = true := hkey ▸ assertOwnKey_newKey _ _ _
        rw [if_pos hown] at hstep
        cases hstep
        refine ⟨backed_store h p (hminted _ (by rw [hkey]; exact List.mem_singleton_self _))
          (hintact _ (bucket_put _ _ _)), ?_⟩
        rintro _ ⟨⟩ key hmem
        obtain rfl := List.mem_singleton.mp hmem
        exact hown
      · cases hstep
  | submit p tenant png uuid =>
      simp only [vaultStep] at hstep
      split at hstep
      · have hown := assertOwnKey_newKey tenant (js "signatures") uuid
        rw [if_pos hown] at hstep
        cases hstep
        refine ⟨backed_store h p (hminted _ (List.mem_singleton_self _)) ?_, ?_⟩
        · intro key hmem
          obtain rfl := List.mem_singleton.mp hmem
          exact ⟨hown, _, bucket_put _ _ _⟩
        · rintro _ ⟨⟩ key hmem
          obtain rfl := List.mem_singleton.mp hmem
          exact hown
      · cases hstep
  | complete p tenant document images stamp signedUuid certificateUuid =>
      simp only [vaultStep] at hstep
      split at hstep
      · rename_i row _ hfind
        obtain ⟨hrow, htenant⟩ := findDocument_mem hfind
        have hown : assertOwnKey tenant row.storageKey = true := htenant ▸ (h.documents row hrow).own
        have himages : ∀ key ∈ images.filterMap (s.findKey tenant), assertOwnKey tenant key = true := by
          intro key hkey
          obtain ⟨i, -, hi⟩ := List.mem_filterMap.mp hkey
          exact (h.columns _ (findKey_mem hi)).own
        -- What the job would store under is what the run is known not to have used.
        simp only [minted, hfind, siblingKey_of_own hown, Option.toList_some, List.singleton_append,
          List.mem_cons, List.not_mem_nil, or_false, forall_eq_or_imp, forall_eq] at hminted
        obtain ⟨hbacked, haccesses⟩ := complete_spec p stamp h hown himages hminted.1 hminted.2
        injection hstep with hpair
        rw [hpair] at hbacked haccesses
        refine ⟨hbacked, ?_⟩
        rintro _ ⟨⟩
        exact haccesses
      · cases hstep
        exact ⟨h, fun _ _ key hkey => by cases hkey⟩
      · cases hstep
  | deliver tenant signed certificate =>
      simp only [vaultStep] at hstep
      split at hstep
      · rename_i signedKey certificateKey hsigned hcertificate
        cases hstep
        refine ⟨h, ?_⟩
        rintro _ ⟨⟩ key hmem
        rw [accesses_deliver] at hmem
        simp only [List.mem_cons, List.not_mem_nil, or_false] at hmem
        -- The worker checks no key: both are the workspace's own because its columns name them.
        rcases hmem with rfl | rfl
        · exact (h.columns _ (findKey_mem hsigned)).own
        · exact (h.columns _ (findKey_mem hcertificate)).own
      · cases hstep
        exact ⟨h, fun _ _ key hkey => by cases hkey⟩
  | record p =>
      have hp := h.pending p
      simp only [vaultStep] at hstep
      split at hstep
      · rename_i row hpending
        rw [hpending] at hp
        cases hstep
        have hrecorded : Backed sha256 { s with documents := s.documents ++ [row] } := by
          refine ⟨fun d hd => ?_, h.columns, h.pending⟩
          rcases List.mem_append.mp hd with hmem | hmem
          · exact h.documents d hmem
          · obtain rfl := List.mem_singleton.mp hmem
            exact hp
        exact ⟨hrecorded.setPending p trivial, fun _ ht => by cases ht⟩
      · rename_i tenant stored hpending
        rw [hpending] at hp
        cases hstep
        have hrecorded : Backed sha256 { s with columns := s.columns ++ stored.map fun key => (tenant, key) } := by
          refine ⟨h.documents, fun column hcolumn => ?_, h.pending⟩
          rcases List.mem_append.mp hcolumn with hmem | hmem
          · exact h.columns column hmem
          · obtain ⟨key, hkey, rfl⟩ := List.mem_map.mp hmem
            exact hp key hkey
        exact ⟨hrecorded.setPending p trivial, fun _ ht => by cases ht⟩
      · cases hstep
  | abandon p =>
      cases hstep
      exact ⟨h.setPending p trivial, fun _ ht => by cases ht⟩
  | download tenant document =>
      simp only [vaultStep] at hstep
      split at hstep
      · cases hstep
        refine ⟨h, ?_⟩
        rintro _ ⟨⟩
        exact confined_getStream s tenant _
      · cases hstep
        exact ⟨h, fun _ _ key hkey => by cases hkey⟩
  | readArtifact tenant column =>
      simp only [vaultStep] at hstep
      split at hstep
      · cases hstep
        refine ⟨h, ?_⟩
        rintro _ ⟨⟩
        exact confined_getStream s tenant _
      · cases hstep
        exact ⟨h, fun _ _ key hkey => by cases hkey⟩

/-- A run from an empty bucket, in which no UUID is drawn twice. -/
def Run (sha256 : Bytes → JsString) (log : List (VaultEvent × VaultReply)) (s : Vault) : Prop :=
  Transcript (vaultStep sha256) (fun s e => uuidsFresh s e = true) Vault.empty log s

theorem Run.backed {log : List (VaultEvent × VaultReply)} (h : Run sha256 log s) : Backed sha256 s :=
  Transcript.invariant (fun _ _ _ _ hs hfresh hstep => (backed_step hs hfresh hstep).1) h backed_empty

/-- **Every row has its bytes.**  Whatever requests and jobs were under way and wherever they ended, after any run a
workspace that asks for a document of its own is given the very bytes its row describes, every key column leads to an
object, and the worker finds again any two copies its columns name. -/
theorem every_row_has_its_bytes {log : List (VaultEvent × VaultReply)} (hrun : Run sha256 log s) :
    (∀ i d, s.documents[i]? = some d →
      ∃ bytes, vaultStep sha256 s (.download d.tenant i) = some (s, ⟨.bytes bytes, [d.storageKey]⟩) ∧
        PDF_MAGIC <+: bytes ∧ bytes.length = d.byteSize ∧ sha256 bytes = d.sha256) ∧
      (∀ i tenant key, s.columns[i]? = some (tenant, key) →
        ∃ bytes, vaultStep sha256 s (.readArtifact tenant i) = some (s, ⟨.bytes bytes, [key]⟩)) ∧
      ∀ i j tenant key key', s.columns[i]? = some (tenant, key) → s.columns[j]? = some (tenant, key') →
        ∃ bytes bytes', vaultStep sha256 s (.deliver tenant i j) = some (s, ⟨.attached bytes bytes', [key, key']⟩) := by
  have hbacked := Run.backed hrun
  refine ⟨?_, ?_, ?_⟩
  · intro i d hd
    obtain ⟨hown, bytes, hbytes, hrest⟩ := hbacked.documents d (List.mem_of_getElem? hd)
    have hfind : s.findDocument d.tenant i = some d := by
      unfold Vault.findDocument
      rw [hd, Option.filter_some, if_pos (beq_self_eq_true _)]
    exact ⟨bytes, by simp only [vaultStep, hfind, Vault.getStream, hown, if_true, hbytes], hrest⟩
  · intro i tenant key hcolumn
    obtain ⟨hown, bytes, hbytes⟩ := hbacked.columns _ (List.mem_of_getElem? hcolumn)
    have hfind := findKey_of_column hcolumn
    exact ⟨bytes, by simp only [vaultStep, hfind, Vault.getStream, hown, if_true, hbytes]⟩
  · intro i j tenant key key' hsigned hcertificate
    obtain ⟨-, bytes, hbytes⟩ := hbacked.columns _ (List.mem_of_getElem? hsigned)
    obtain ⟨-, bytes', hbytes'⟩ := hbacked.columns _ (List.mem_of_getElem? hcertificate)
    have hfind := findKey_of_column hsigned
    have hfind' := findKey_of_column hcertificate
    exact ⟨bytes, bytes', by simp only [vaultStep, hfind, hfind', Vault.deliver, hbytes, hbytes']⟩

/-- **No object of another workspace is touched**, by requests, which check every key, nor by the worker, which
checks none. -/
theorem accesses_confined {log : List (VaultEvent × VaultReply)} (hrun : Run sha256 log s) :
    ∀ entry ∈ log, ∀ tenant, entry.1.tenant = some tenant → ∀ key ∈ entry.2.accesses,
      assertOwnKey tenant key = true ∧ ∀ other, other ≠ tenant → assertOwnKey other key = false := by
  have hconfined : ∀ entry ∈ log, Confined entry :=
    Transcript.forall_mem (fun _ _ _ _ hs hfresh hstep => (backed_step hs hfresh hstep).1)
      (fun _ _ _ _ hs hfresh hstep => (backed_step hs hfresh hstep).2) hrun backed_empty
  intro entry hentry tenant htenant key hkey
  have hown := hconfined entry hentry tenant htenant key hkey
  refine ⟨hown, fun other hother => Bool.eq_false_iff.mpr fun hforeign => hother (own_unique hforeign hown)⟩

end

/-! ## Two workspaces -/

def firmA : Uuid := ⟨js "aaaa", by decide⟩

def firmB : Uuid := ⟨js "bbbb", by decide⟩

/-- Each uploads a document; one upload dies before its row is there.  Then one document is completed, and its
copies are sent again. -/
def exampleVaultEvents : List VaultEvent :=
  [.upload 0 firmA (js "lease.pdf") [0x25, 0x50, 0x44, 0x46, 0x2D, 1] ⟨js "u1", by decide⟩,
    .upload 1 firmB (js "offer.pdf") [0x25, 0x50, 0x44, 0x46, 0x2D, 2] ⟨js "u2", by decide⟩,
    .abandon 1, .record 0, .submit 1 firmA [7] ⟨js "u3", by decide⟩, .record 1,
    .complete 2 firmA 0 [0] (fun source images => (source ++ images.flatten, [9])) ⟨js "u4", by decide⟩
      ⟨js "u5", by decide⟩,
    .record 2, .download firmB 0, .readArtifact firmA 1, .deliver firmA 1 2, .deliver firmB 1 2]

/-- Says of a file no more than how long it is. -/
def lengthDigest (bytes : Bytes) : JsString := padded 4 bytes.length

theorem every_row_has_its_bytes_example : ∃ log s, Run lengthDigest log s ∧ s.documents.length = 1 ∧
    s.columns.length = 3 ∧
    (∀ i d, s.documents[i]? = some d →
      ∃ bytes, vaultStep lengthDigest s (.download d.tenant i) = some (s, ⟨.bytes bytes, [d.storageKey]⟩) ∧
        PDF_MAGIC <+: bytes ∧ bytes.length = d.byteSize ∧ lengthDigest bytes = d.sha256) ∧
      (∀ i tenant key, s.columns[i]? = some (tenant, key) →
        ∃ bytes, vaultStep lengthDigest s (.readArtifact tenant i) = some (s, ⟨.bytes bytes, [key]⟩)) ∧
      ∀ i j tenant key key', s.columns[i]? = some (tenant, key) → s.columns[j]? = some (tenant, key') →
        ∃ bytes bytes', vaultStep lengthDigest s (.deliver tenant i j) =
          some (s, ⟨.attached bytes bytes', [key, key']⟩) := by
  have hshape : (replay (vaultStep lengthDigest) uuidsFresh Vault.empty exampleVaultEvents).map
      (fun r => (r.2.documents.length, r.2.columns.length)) = some (1, 3) := by decide +kernel
  obtain ⟨⟨log, s⟩, hrun, hcounts⟩ := Option.map_eq_some_iff.mp hshape
  obtain ⟨hdocuments, hcolumns⟩ := Prod.mk.inj hcounts
  have hlog : Run lengthDigest log s := transcript_of_replay hrun
  exact ⟨log, s, hlog, hdocuments, hcolumns, every_row_has_its_bytes hlog⟩

theorem accesses_confined_example : ∃ log s, Run lengthDigest log s ∧ log.length = 12 ∧
    ∀ entry ∈ log, ∀ tenant, entry.1.tenant = some tenant → ∀ key ∈ entry.2.accesses,
      assertOwnKey tenant key = true ∧ ∀ other, other ≠ tenant → assertOwnKey other key = false := by
  have hshape : (replay (vaultStep lengthDigest) uuidsFresh Vault.empty exampleVaultEvents).map
      (fun r => r.1.length) = some 12 := by decide +kernel
  obtain ⟨⟨log, s⟩, hrun, hcount⟩ := Option.map_eq_some_iff.mp hshape
  have hlog : Run lengthDigest log s := transcript_of_replay hrun
  exact ⟨log, s, hlog, hcount, accesses_confined hlog⟩

end ESignSoft.Tenancy
