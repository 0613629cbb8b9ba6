import ESignSoft.Sealing.Completion

/-!
# The two checks of a sealed document

The sender's check hashes the stored document as it streams, and refuses one that is too large; the
public one looks a fingerprint up among all sealed requests.
-/

namespace ESignSoft.Sealing

open ESignSoft.Lib.JsText ESignSoft.Lib.JsDate

variable {C : NodeCrypto}

def MAX_VERIFY_BYTES : Nat := 64 * 1024 * 1024

structure VerifyResult where
  valid : Bool
  computedHash : Option JsString
  recordedHash : Option JsString
  hashMatches : Bool
  sealValid : Bool
  sealKid : Option JsString
  checkedAt : JsString

inductive VerifyError
  | notFound
  /-- The object is not there. -/
  | storage
  /-- `stored document is too large to verify`. -/
  | payloadTooLarge
  deriving DecidableEq, Repr

/-- The loop over the stream: how much was read, and what the digest was given. -/
def readStream : List Bytes → Nat → Bytes → Except VerifyError Bytes
  | [], _, digested => .ok digested
  | chunk :: stream, read, digested =>
      if read + chunk.length > MAX_VERIFY_BYTES then .error .payloadTooLarge
      else readStream stream (read + chunk.length) (digested ++ chunk)

/-- An empty string counts as none. -/
def truthy (text : Option JsString) : Option JsString := text.filter fun t => t ≠ []

/-- `SignatureRequestsService.verify`; `getStream` is the stored object in the pieces it arrives in. -/
def verify (S : SealService C) (requests : List Request) (getStream : Key → Option (List Bytes))
    (id : JsString) (now : Int) : Except VerifyError VerifyResult :=
  match requests.find? fun r => r.id == id with
  | none => .error .notFound
  | some row =>
      match row.record.signedPdfKey, truthy row.record.documentHash, truthy row.record.sealSignature,
          truthy row.record.sealKid, row.row.completedAt with
      | some signedPdfKey, some documentHash, some sealSignature, some sealKid, some completedAt =>
          match getStream signedPdfKey with
          | none => .error .storage
          | some stream =>
              match readStream stream 0 [] with
              | .error e => .error e
              | .ok digested =>
                  let computedHash := C.sha256Hex digested
                  let hashMatches := computedHash == documentHash
                  let sealValid := S.verify ⟨row.id, completedAt, computedHash⟩ sealSignature sealKid
                  .ok
                    { valid := hashMatches && sealValid
                      computedHash := some computedHash
                      recordedHash := row.record.documentHash
                      hashMatches := hashMatches
                      sealValid := sealValid
                      sealKid := row.record.sealKid
                      checkedAt := toISOString now }
      | _, _, _, _, _ =>
          .ok
            { valid := false
              computedHash := none
              recordedHash := row.record.documentHash
              hashMatches := false
              sealValid := false
              sealKid := row.record.sealKid
              checkedAt := toISOString now }

/-- The loop refuses a stream that is too long as a whole and reads any other to its end. -/
theorem readStream_eq (stream : List Bytes) {read : Nat} (hread : read ≤ MAX_VERIFY_BYTES)
    (digested : Bytes) :
    readStream stream read digested =
      if read + stream.flatten.length > MAX_VERIFY_BYTES then .error .payloadTooLarge
      else .ok (digested ++ stream.flatten) := by
  induction stream generalizing read digested with
  | nil => simp [readStream, Nat.not_lt.mpr hread]
  | cons chunk stream ih =>
      have hlength : read + (chunk :: stream).flatten.length =
          read + chunk.length + stream.flatten.length := by
        simp [Nat.add_assoc]
      rw [hlength]
      unfold readStream
      by_cases hchunk : read + chunk.length > MAX_VERIFY_BYTES
      · rw [if_pos hchunk, if_pos (by omega)]
      · rw [if_neg hchunk, ih (Nat.not_lt.mp hchunk)]
        simp only [List.flatten_cons, List.append_assoc]

/-! ## By fingerprint -/

structure PublicVerifyResult where
  verified : Bool
  sealedAt : Option JsString
  sealKid : Option JsString
  checkedAt : JsString

/-- A row of `find_seal_by_hash`. -/
structure SealRow where
  requestId : JsString
  completedAt : Int
  sealSignature : JsString
  sealKid : JsString

def sealRow (documentHash : JsString) (r : Request) : Option SealRow :=
  if r.record.documentHash = some documentHash then
    match r.record.sealSignature, r.record.sealKid, r.row.completedAt with
    | some sealSignature, some sealKid, some completedAt => some ⟨r.id, completedAt, sealSignature, sealKid⟩
    | _, _, _ => none
  else none

/-- `find_seal_by_hash`: the first match, in whatever order the rows are scanned. -/
def findSealByHash (requests : List Request) (documentHash : JsString) : Option SealRow :=
  (requests.filterMap (sealRow documentHash)).head?

/-- `VerifyService.byHash`. -/
def byHash (S : SealService C) (requests : List Request) (documentHash : JsString) (now : Int) :
    PublicVerifyResult :=
  match findSealByHash requests documentHash with
  | none => ⟨false, none, none, toISOString now⟩
  | some row =>
      let valid := S.verify ⟨row.requestId, row.completedAt, documentHash⟩ row.sealSignature row.sealKid
      { verified := valid
        sealedAt := if valid then some (toISOString row.completedAt) else none
        sealKid := if valid then some row.sealKid else none
        checkedAt := toISOString now }

end ESignSoft.Sealing
