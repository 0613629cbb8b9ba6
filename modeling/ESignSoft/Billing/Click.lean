import ESignSoft.Billing.Callbacks
import ESignSoft.Lib.JsNumber

/-!
# The Click callbacks

Prepare and Complete, each as the checks on the body, the queries it makes in turn, the decision on the
row that was read and the transactions that may follow.  Every value of the body is text but `action` and
`error`, which the schema reads as integers.

* `clickSignatureValid_iff` — the signature is the digest, up to the case of its letters;
* `clickAmountMatches_lt` — an amount that is accepted, as the number its text is read as, lies within
  half a hundredth of the price: neither the subtraction nor the constant rounds it in;
* `prepareIdMatches_text` — the text of an identifier is read back as that identifier.
-/

namespace ESignSoft.Billing.Click

open ESignSoft.Lib.JsNumber ESignSoft.Lib.JsText

/-! ## The protocol -/

namespace ClickError

def Success : Int := 0

def SignCheckFailed : Int := -1

def IncorrectAmount : Int := -2

def ActionNotFound : Int := -3

def AlreadyPaid : Int := -4

def UserNotFound : Int := -5

def TransactionNotFound : Int := -6

def FailedToUpdate : Int := -7

def BadRequest : Int := -8

def TransactionCancelled : Int := -9

end ClickError

def CLICK_ERROR_NOTES : List (Int × String) :=
  [(ClickError.Success, "Success"), (ClickError.SignCheckFailed, "SIGN CHECK FAILED"),
    (ClickError.IncorrectAmount, "Incorrect parameter amount"),
    (ClickError.ActionNotFound, "Action not found"), (ClickError.AlreadyPaid, "Already paid"),
    (ClickError.UserNotFound, "User does not exist"),
    (ClickError.TransactionNotFound, "Transaction does not exist"),
    (ClickError.FailedToUpdate, "Failed to update user"),
    (ClickError.BadRequest, "Error in request from click"),
    (ClickError.TransactionCancelled, "Transaction cancelled")]

def clickNote (code : Int) : String := (CLICK_ERROR_NOTES.lookup code).getD "Error"

namespace ClickAction

def Prepare : Int := 0

def Complete : Int := 1

end ClickAction

/-- A body that passed the schema. -/
structure ClickCallback where
  click_trans_id : String
  service_id : String
  merchant_trans_id : String
  merchant_prepare_id : String
  amount : String
  action : Int
  error : Int
  sign_time : String
  sign_string : String
  deriving DecidableEq, Repr

structure ClickResult where
  error : Int
  error_note : String
  merchant_prepare_id : Option Int
  merchant_confirm_id : Option Int
  deriving DecidableEq, Repr

def ok (merchant_prepare_id merchant_confirm_id : Option Int) : ClickResult :=
  ⟨ClickError.Success, clickNote ClickError.Success, merchant_prepare_id, merchant_confirm_id⟩

def fail (code : Int) : ClickResult := ⟨code, clickNote code, none, none⟩

/-- What the deployment fixes, the digest (`md5`, in hexadecimal) and `toLowerCase`.  A variable of the
environment that is not set is empty. -/
structure Setting where
  CLICK_SECRET_KEY : String
  CLICK_SERVICE_ID : String
  paymentId : String → Option Nat
  md5 : String → String
  toLowerCase : String → String

inductive Method
  | prepare
  | complete
  deriving DecidableEq, Repr

/-- The action each callback asks of the body. -/
def Method.action : Method → Int
  | .prepare => ClickAction.Prepare
  | .complete => ClickAction.Complete

/-- The text that is signed: the amount and the identifier as they were sent. -/
def joined (setting : Setting) (body : ClickCallback) : String :=
  body.click_trans_id ++ body.service_id ++ setting.CLICK_SECRET_KEY ++ body.merchant_trans_id ++
    body.merchant_prepare_id ++ body.amount ++ toString body.action ++ body.sign_time

def clickSignature (setting : Setting) (body : ClickCallback) : String := setting.md5 (joined setting body)

def clickSignatureValid (setting : Setting) (presented expected : String) : Bool :=
  let a := (setting.toLowerCase presented).toUTF8
  let b := (setting.toLowerCase expected).toUTF8
  a.size == b.size && a.data == b.data

/-- Half a tiyin, as a number of the language. -/
def tolerance : ℚ := toDouble (5 / 1000)

def clickAmountMatches (presented : String) (expectedSum : Int) : Bool :=
  match stringToNumber (js presented) with
  | .finite value => absLt (sub value expectedSum) tolerance
  | _ => false

def TIYIN_PER_SUM : Int := 100

/-- Tiyin to so'm; `none` where the source throws. -/
def sumFromTiyin (tiyin : Int) : Option Int :=
  if tiyin % TIYIN_PER_SUM ≠ 0 then none else some (tiyin / TIYIN_PER_SUM)

/-- `Math.floor(Math.random() * 1_000_000_000) + 1`. -/
def newPrepareId (draw : Fin 1000000000) : Int := draw.val + 1

/-! ## The checks and the decisions -/

/-- What `verified` checks before its first query. -/
def verifiedBody (setting : Setting) (method : Method) (body : ClickCallback) : Except ClickResult Unit :=
  if setting.CLICK_SECRET_KEY = "" ∨ setting.CLICK_SERVICE_ID = "" then .error (fail ClickError.BadRequest)
  else if body.action ≠ method.action then .error (fail ClickError.ActionNotFound)
  else if body.service_id ≠ setting.CLICK_SERVICE_ID then .error (fail ClickError.BadRequest)
  else if clickSignatureValid setting body.sign_string (clickSignature setting body) = false then
    .error (fail ClickError.SignCheckFailed)
  else .ok ()

/-- The answer to any exception. -/
def failedToUpdate : ClickResult := fail ClickError.FailedToUpdate

/-- What `verified` checks on the payment it found. -/
def verifiedAmount (body : ClickCallback) (payment : Payment) : Except ClickResult Unit :=
  match sumFromTiyin payment.amountTiyin with
  | none => .error failedToUpdate
  | some sum =>
      if clickAmountMatches body.amount sum = false then .error (fail ClickError.IncorrectAmount)
      else .ok ()

/-- Complete quotes the identifier that is stored. -/
def prepareIdMatches (body : ClickCallback) (payment : Payment) : Bool :=
  match payment.clickPrepareId, stringToNumber (js body.merchant_prepare_id) with
  | some id, .finite quoted => isInteger (.finite quoted) && quoted == id
  | _, _ => false

/-- What Prepare goes on to write, with the identifier it will answer. -/
inductive PrepareStep
  | issue (prepareId : Int)
  | reuse (prepareId : Int)

def prepareOn (body : ClickCallback) (payment : Payment) (draw : Fin 1000000000) :
    Except ClickResult PrepareStep :=
  if body.error < 0 then .error (fail ClickError.TransactionCancelled)
  else
    match payment.status with
    | .paid => .error (fail ClickError.AlreadyPaid)
    | .cancelled => .error (fail ClickError.TransactionCancelled)
    | .pending =>
        match payment.clickPrepareId with
        | none => .ok (.issue (newPrepareId draw))
        | some prepareId => .ok (.reuse prepareId)

/-- What Complete goes on to do. -/
inductive CompleteStep
  | activate
  | cancel

def completeOn (body : ClickCallback) (payment : Payment) : Except ClickResult CompleteStep :=
  if prepareIdMatches body payment = false then .error (fail ClickError.TransactionNotFound)
  -- Click reports a failure of its own.
  else if body.error < 0 then .ok .cancel
  else
    match payment.status with
    | .cancelled => .error (fail ClickError.TransactionCancelled)
    | .paid => .error (fail ClickError.AlreadyPaid)
    | .pending => .ok .activate

/-! ## What the checks establish -/

/-- **The signature that is accepted is the digest**, up to the case of its letters. -/
theorem clickSignatureValid_iff {setting : Setting} {presented expected : String} :
    clickSignatureValid setting presented expected = true ↔
      setting.toLowerCase presented = setting.toLowerCase expected := by
  simp only [clickSignatureValid, String.toUTF8_eq_toByteArray, Bool.and_eq_true, beq_iff_eq]
  constructor
  · rintro ⟨-, h⟩
    exact String.toByteArray_inj.mp (ByteArray.ext h)
  · intro h
    rw [h]
    exact ⟨rfl, rfl⟩

theorem verifiedBody_ok {setting : Setting} {method : Method} {body : ClickCallback}
    (h : verifiedBody setting method body = .ok ()) :
    setting.CLICK_SECRET_KEY ≠ "" ∧ setting.CLICK_SERVICE_ID ≠ "" ∧ body.action = method.action ∧
      body.service_id = setting.CLICK_SERVICE_ID ∧
      setting.toLowerCase body.sign_string = setting.toLowerCase (clickSignature setting body) := by
  unfold verifiedBody at h
  split at h
  · cases h
  · rename_i hconfigured
    split at h
    · cases h
    · rename_i haction
      split at h
      · cases h
      · rename_i hservice
        split at h
        · cases h
        · rename_i hsign
          rw [not_or] at hconfigured
          exact ⟨hconfigured.1, hconfigured.2, not_not.mp haction, not_not.mp hservice,
            clickSignatureValid_iff.mp (by simpa using hsign)⟩

theorem sumFromTiyin_eq_some {tiyin sum : Int} (h : sumFromTiyin tiyin = some sum) :
    (sum : ℚ) = tiyin / 100 := by
  unfold sumFromTiyin at h
  split at h
  · cases h
  · rename_i hdiv
    obtain rfl := Option.some.inj h
    have hmul : tiyin = TIYIN_PER_SUM * (tiyin / TIYIN_PER_SUM) :=
      (Int.mul_ediv_cancel' (Int.dvd_of_emod_eq_zero (not_not.mp hdiv))).symm
    have hcast : (tiyin : ℚ) = 100 * ((tiyin / TIYIN_PER_SUM : Int) : ℚ) := by
      exact_mod_cast hmul
    rw [hcast]
    ring

/-- The tolerance, to the last of its digits. -/
theorem tolerance_eq : tolerance = 5764607523034235 / 2 ^ 60 := by
  decide +kernel

theorem isDouble_tolerance : IsDouble tolerance := isDouble_toDouble _

/-- A multiple of the last place of the tolerance that is not below half a hundredth is not below the
tolerance either. -/
private theorem tolerance_le_of_mul {d : ℚ} {m : ℤ} (hm : |d| = m * 2 ^ (-60 : ℤ)) (hd : 1 / 200 ≤ |d|) :
    tolerance ≤ |d| := by
  rw [hm] at hd ⊢
  have hpow : (2 : ℚ) ^ (-60 : ℤ) = 1 / 2 ^ 60 := by norm_num
  rw [hpow] at hd ⊢
  have hlow : (5764607523034234 : ℚ) < m := by
    have hscaled : (1 / 200 : ℚ) * 2 ^ 60 ≤ m := by
      have := mul_le_mul_of_nonneg_right hd (by positivity : (0 : ℚ) ≤ 2 ^ 60)
      calc (1 / 200 : ℚ) * 2 ^ 60 ≤ m * (1 / 2 ^ 60) * 2 ^ 60 := this
        _ = m := by ring
    calc (5764607523034234 : ℚ) < 1 / 200 * 2 ^ 60 := by norm_num
      _ ≤ m := hscaled
  have hm' : (5764607523034235 : ℚ) ≤ m := by
    have hint : (5764607523034234 : ℤ) < m := by exact_mod_cast hlow
    exact_mod_cast hint
  rw [tolerance_eq]
  calc (5764607523034235 : ℚ) / 2 ^ 60 = 5764607523034235 * (1 / 2 ^ 60) := div_eq_mul_one_div _ _
    _ ≤ (m : ℚ) * (1 / 2 ^ 60) := mul_le_mul_of_nonneg_right hm' (by positivity)

/-- A number of the language that is half a hundredth away from a whole sum is at least the tolerance away
from it. -/
theorem tolerance_le {value : ℚ} {sum : Int} (hvalue : IsDouble value) (h : 1 / 200 ≤ |value - sum|) :
    tolerance ≤ |value - sum| := by
  by_cases hbig : (2 : ℚ) ^ (-8 : ℤ) ≤ |value|
  · -- The value has no digits beyond the last place of the tolerance, and neither has a whole sum.
    obtain ⟨m, hm⟩ := hvalue.exists_int_mul hbig
    have hgrid : value - sum = ((m - sum * 2 ^ 60 : ℤ) : ℚ) * 2 ^ (-60 : ℤ) := by
      rw [hm]
      have hpow : (2 : ℚ) ^ (-60 : ℤ) = 1 / 2 ^ 60 := by norm_num
      rw [show (-8 - 52 : ℤ) = -60 by norm_num, hpow]
      push_cast
      ring
    refine tolerance_le_of_mul (m := |m - sum * 2 ^ 60|) ?_ h
    rw [hgrid, abs_mul, abs_of_pos (two_zpow_pos (-60)), Int.cast_abs]
  · have hsmall : |value| < 2 ^ (-8 : ℤ) := not_le.mp hbig
    have hpow : (2 : ℚ) ^ (-8 : ℤ) = 1 / 256 := by norm_num
    rw [hpow] at hsmall
    by_cases hsum : sum = 0
    · rw [hsum, Int.cast_zero, sub_zero] at h
      linarith
    · -- A sum that is not zero is much further away.
      have hone : (1 : ℚ) ≤ |(sum : ℚ)| := by
        rw [← Int.cast_abs]
        exact_mod_cast Int.one_le_abs hsum
      have htriangle : |(sum : ℚ)| - |value| ≤ |value - sum| := by
        rw [abs_sub_comm]
        exact abs_sub_abs_le_abs_sub _ _
      have htol : tolerance ≤ 1 / 2 := by
        rw [tolerance_eq]
        norm_num
      linarith

/-- **An accepted amount lies within half a hundredth of the price.** -/
theorem clickAmountMatches_lt {presented : String} {sum : Int}
    (h : clickAmountMatches presented sum = true) :
    ∃ value : ℚ, stringToNumber (js presented) = .finite value ∧ |value - sum| < 1 / 200 := by
  unfold clickAmountMatches at h
  split at h
  · rename_i value hvalue
    refine ⟨value, hvalue, ?_⟩
    by_contra hfar
    have hfar' := not_lt.mp hfar
    have htol := tolerance_le (isDouble_stringToNumber hvalue) hfar'
    have hpos : 0 < |value - sum| := lt_of_lt_of_le (by norm_num) hfar'
    have hround := le_nearest isDouble_tolerance hpos htol
    unfold sub ofRat at h
    split at h
    · cases h
    · simp only [absLt, decide_eq_true_eq, abs_toDouble] at h
      exact absurd h (not_lt.mpr hround)
  · cases h

theorem verifiedAmount_ok {body : ClickCallback} {payment : Payment}
    (h : verifiedAmount body payment = .ok ()) :
    ∃ value : ℚ, stringToNumber (js body.amount) = .finite value ∧
      |value - payment.amountTiyin / 100| < 1 / 200 := by
  unfold verifiedAmount at h
  split at h
  · cases h
  · rename_i sum hsum
    split at h
    · cases h
    · rename_i hmatch
      obtain ⟨value, hvalue, hlt⟩ := clickAmountMatches_lt (by simpa using hmatch)
      rw [sumFromTiyin_eq_some hsum] at hlt
      exact ⟨value, hvalue, hlt⟩

theorem prepareIdMatches_iff {body : ClickCallback} {payment : Payment} :
    prepareIdMatches body payment = true ↔ ∃ id : Int, payment.clickPrepareId = some id ∧
      stringToNumber (js body.merchant_prepare_id) = .finite id := by
  unfold prepareIdMatches
  split
  · rename_i id quoted hid hquoted
    simp only [isInteger, Bool.and_eq_true, beq_iff_eq, hid, Option.some.injEq, exists_eq_left', hquoted,
      Number.finite.injEq]
    constructor
    · exact fun h => h.2
    · rintro rfl
      exact ⟨by simp [Rat.isInt], rfl⟩
  · rename_i hnone
    simp only [Bool.false_eq_true, false_iff, not_exists, not_and]
    intro id hid hquoted
    exact hnone id id hid hquoted

/-- **The text of an identifier is read back as that identifier.** -/
theorem prepareIdMatches_text {body : ClickCallback} {payment : Payment} {id : Int}
    (hid : payment.clickPrepareId = some id) (hnonneg : 0 ≤ id) (hlt : id < 2 ^ 53)
    (htext : js body.merchant_prepare_id = intText id) : prepareIdMatches body payment = true := by
  obtain ⟨n, rfl⟩ := Int.eq_ofNat_of_zero_le hnonneg
  refine prepareIdMatches_iff.mpr ⟨n, hid, ?_⟩
  have hnat : intText n = natText n := by simp [intText]
  have hn : n < 2 ^ 53 := by exact_mod_cast hlt
  rw [htext, hnat, stringToNumber_natText hn]
  simp

theorem newPrepareId_bounds (draw : Fin 1000000000) : 0 ≤ newPrepareId draw ∧ newPrepareId draw < 2 ^ 53 := by
  have := draw.isLt
  unfold newPrepareId
  omega

end ESignSoft.Billing.Click
