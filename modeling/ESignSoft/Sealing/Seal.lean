import ESignSoft.Lib.JsDate

/-!
# The document seal

The server's keyring and what it signs: one canonical line naming the request, the moment of signing and
the fingerprint of the signed document.  The cryptography itself is the runtime's; what is relied on is
in `NodeCrypto.Lawful`.

* `SealService` — an accepted ring: every key is Ed25519 and one of them signs;
* `SealService.verify_seal` — what the service seals, it verifies.
-/

namespace ESignSoft.Sealing

open ESignSoft.Lib.JsText ESignSoft.Lib.JsDate

abbrev Bytes := List UInt8

/-- What the code takes from `node:crypto` and `Buffer`. -/
structure NodeCrypto where
  PrivateKey : Type
  PublicKey : Type
  /-- `none` where it throws. -/
  createPrivateKey : JsString → Option PrivateKey
  isEd25519 : PrivateKey → Bool
  createPublicKey : PrivateKey → PublicKey
  sign : Bytes → PrivateKey → Bytes
  /-- `none` where it throws. -/
  verify : Bytes → PublicKey → Bytes → Option Bool
  sha256Hex : Bytes → JsString
  utf8 : JsString → Bytes
  toBase64 : Bytes → JsString
  fromBase64 : JsString → Bytes

/-- What the sealing relies on. -/
structure NodeCrypto.Lawful (C : NodeCrypto) : Prop where
  verify_sign : ∀ message key, C.isEd25519 key = true →
    C.verify message (C.createPublicKey key) (C.sign message key) = some true
  fromBase64_toBase64 : ∀ bytes, C.fromBase64 (C.toBase64 bytes) = bytes
  toBase64_sign_ne : ∀ message key, C.toBase64 (C.sign message key) ≠ []
  sha256Hex_ne : ∀ bytes, C.sha256Hex bytes ≠ []

/-! ## The keyring -/

inductive SealKeyState
  | active
  | retiring
  deriving DecidableEq, Repr

structure SealKey where
  kid : JsString
  privateKeyPkcs8Pem : JsString
  state : SealKeyState

inductive SealRingError
  /-- `seal ring: duplicate kid "…"`. -/
  | duplicateKid (kid : JsString)
  /-- `createPrivateKey` throws. -/
  | invalidKey
  /-- `seal ring: key "…" is not Ed25519`. -/
  | notEd25519 (kid : JsString)
  /-- `seal ring: more than one "active" key`. -/
  | twoActive
  /-- `seal ring: no "active" key`. -/
  | noActive
  deriving DecidableEq, Repr

structure SealEntry (C : NodeCrypto) where
  kid : JsString
  privateKey : C.PrivateKey
  publicKey : C.PublicKey

variable {C : NodeCrypto}

/-- The entry of a key, whose public half is derived from the private one. -/
def SealEntry.Sound (e : SealEntry C) : Prop :=
  C.isEd25519 e.privateKey = true ∧ e.publicKey = C.createPublicKey e.privateKey

/-- Every listed key verifies; only the active one signs. -/
structure SealService (C : NodeCrypto) where
  entries : List (SealEntry C)
  activeKid : JsString
  kid_ne : activeKid ≠ []
  sound : ∀ e ∈ entries, e.Sound
  active : (entries.find? fun e => e.kid == activeKid).isSome = true

/-- The loop of the constructor. -/
def readRing (C : NodeCrypto) :
    List SealKey → List (SealEntry C) → Option JsString →
      Except SealRingError (List (SealEntry C) × Option JsString)
  | [], entries, activeKid => .ok (entries, activeKid)
  | key :: ring, entries, activeKid =>
      if entries.any fun e => e.kid == key.kid then .error (.duplicateKid key.kid)
      else
        match C.createPrivateKey key.privateKeyPkcs8Pem with
        | none => .error .invalidKey
        | some privateKey =>
            if C.isEd25519 privateKey = false then .error (.notEd25519 key.kid)
            else
              let entry : SealEntry C := ⟨key.kid, privateKey, C.createPublicKey privateKey⟩
              if key.state = .active then
                if activeKid.isSome then .error .twoActive
                else readRing C ring (entry :: entries) (some key.kid)
              else readRing C ring (entry :: entries) activeKid

theorem readRing_spec {ring : List SealKey} {entries entries' : List (SealEntry C)}
    {activeKid activeKid' : Option JsString}
    (h : readRing C ring entries activeKid = .ok (entries', activeKid'))
    (hsound : ∀ e ∈ entries, e.Sound)
    (hactive : ∀ kid, activeKid = some kid → ∃ e ∈ entries, e.kid = kid) :
    (∀ e ∈ entries', e.Sound) ∧ ∀ kid, activeKid' = some kid → ∃ e ∈ entries', e.kid = kid := by
  induction ring generalizing entries activeKid with
  | nil =>
      obtain ⟨rfl, rfl⟩ := Prod.mk.inj (Except.ok.inj h)
      exact ⟨hsound, hactive⟩
  | cons key ring ih =>
      unfold readRing at h
      split at h
      · cases h
      · split at h
        · cases h
        · rename_i privateKey _
          split at h
          · cases h
          · rename_i hkind
            have hsound' : ∀ e ∈ (⟨key.kid, privateKey, C.createPublicKey privateKey⟩ : SealEntry C) ::
                entries, e.Sound := by
              intro e he
              rcases List.mem_cons.mp he with rfl | he
              · exact ⟨by simpa using hkind, rfl⟩
              · exact hsound e he
            simp only at h
            split at h
            · split at h
              · cases h
              · refine ih h hsound' fun kid hkid => ⟨_, List.mem_cons_self, Option.some.inj hkid⟩
            · refine ih h hsound' fun kid hkid => ?_
              obtain ⟨e, he, hekid⟩ := hactive kid hkid
              exact ⟨e, List.mem_cons_of_mem _ he, hekid⟩

def SealService.create (C : NodeCrypto) (ring : List SealKey) : Except SealRingError (SealService C) :=
  match h : readRing C ring [] none with
  | .error e => .error e
  | .ok (_, none) => .error .noActive
  | .ok (entries, some kid) =>
      if hkid : kid = [] then .error .noActive
      else
        have hspec := readRing_spec h (by simp) (by simp)
        .ok
          { entries := entries
            activeKid := kid
            kid_ne := hkid
            sound := hspec.1
            active := by
              obtain ⟨e, he, hekid⟩ := hspec.2 kid rfl
              exact List.find?_isSome.mpr ⟨e, he, by simp [hekid]⟩ }

/-! ## Sealing -/

/-- What a seal is bound to. -/
structure SealPayload where
  requestId : JsString
  signedAt : Int
  documentHash : JsString

/-- The line that is signed. -/
def canonicalBytes (C : NodeCrypto) (p : SealPayload) : Bytes :=
  C.utf8 (js "docflow-seal-v1|" ++ p.requestId ++ js "|" ++ toISOString p.signedAt ++ js "|" ++
    p.documentHash)

/-- The entry that signs; the constructor has made sure that there is one. -/
def SealService.activeEntry (S : SealService C) : SealEntry C :=
  (S.entries.find? fun e => e.kid == S.activeKid).get S.active

/-- The signature and the key it was made with. -/
def SealService.seal (S : SealService C) (p : SealPayload) : JsString × JsString :=
  (C.toBase64 (C.sign (canonicalBytes C p) S.activeEntry.privateKey), S.activeKid)

/-- An unknown key and a malformed signature are a plain no. -/
def SealService.verify (S : SealService C) (p : SealPayload) (signatureBase64 kid : JsString) : Bool :=
  match S.entries.find? fun e => e.kid == kid with
  | none => false
  | some entry =>
      (C.verify (canonicalBytes C p) entry.publicKey (C.fromBase64 signatureBase64)).getD false

/-- **What the service seals, it verifies.** -/
theorem SealService.verify_seal (hC : C.Lawful) (S : SealService C) (p : SealPayload) :
    S.verify p (S.seal p).1 (S.seal p).2 = true := by
  have hfind : (S.entries.find? fun e => e.kid == S.activeKid) = some S.activeEntry := by
    simp [SealService.activeEntry]
  obtain ⟨hkind, hpublic⟩ := S.sound _ (List.mem_of_find?_eq_some hfind)
  simp only [SealService.verify, SealService.seal, hfind, hC.fromBase64_toBase64, hpublic,
    hC.verify_sign _ _ hkind, Option.getD_some]

end ESignSoft.Sealing
