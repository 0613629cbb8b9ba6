import ESignSoft.Contracts.SendRequest
import ESignSoft.Lib.JsNumber

/-!
# The recipients of a layout

A layout is tagged with recipient keys, and the prepare flow opens it with one recipient for each position
up to the highest a key names.

* `recipientKeyAt_inj` — different positions have different keys;
* `keys_openRecipients` — the recipients a layout is opened with have different keys.
-/

namespace ESignSoft.Prepare

open ESignSoft.Lib.JsText ESignSoft.Lib.JsNumber ESignSoft.Contracts

structure EditorRecipient where
  key : JsString
  name : JsString
  email : JsString
  role : RecipientRole
  deriving DecidableEq

/-- The key for the nth role; the first keeps the legacy one. -/
def recipientKeyAt (index : Nat) : JsString :=
  if index = 0 then js "signer" else js "signer-" ++ natText (index + 1)

/-- What `^signer-(\d+)$` captures. -/
def keyDigits (key : JsString) : Option JsString :=
  let digits := key.drop (js "signer-").length
  if (js "signer-").isPrefixOf key ∧ digits ≠ [] ∧ digits.all isDigit then some digits else none

/-- The position of a key in the role order, as a number, or -1. -/
def indexOfKey (key : JsString) : ℚ :=
  if key = js "signer" then 0
  else
    match keyDigits key with
    | none => -1
    | some digits =>
        match stringToNumber digits with
        | .finite n => if n ≥ 2 then toDouble (n - 1) else -1
        | _ => -1

def rolesInFields (fields : List TemplateField) : ℚ :=
  let highest := fields.foldl (fun highest f => max highest (indexOfKey f.recipientKey)) 0
  toDouble (highest + 1)

def blankRecipient (index : Nat) : EditorRecipient where
  key := recipientKeyAt index
  name := []
  email := []
  role := .signer

/-- `Array.from({ length }, (_, i) => blankRecipient(i))`, which throws past the longest array there is. -/
def openRecipients (fields : List TemplateField) : Option (List EditorRecipient) :=
  let length := ⌊rolesInFields fields⌋.toNat
  if length < 2 ^ 32 then some ((List.range length).map blankRecipient) else none

/-! ## Keys -/

theorem natText_inj {n m : Nat} (h : natText n = natText m) : n = m := by
  rw [← digitsValue_natText n, ← digitsValue_natText m, h]

/-- Different positions have different keys. -/
theorem recipientKeyAt_inj {i j : Nat} (h : recipientKeyAt i = recipientKeyAt j) : i = j := by
  have hlength : ∀ n, js "signer" ≠ js "signer-" ++ natText n := by
    intro n heq
    have hshort := congrArg List.length heq
    rw [List.length_append, show (js "signer").length = 6 by decide,
      show (js "signer-").length = 7 by decide] at hshort
    omega
  unfold recipientKeyAt at h
  split at h
  · split at h
    · omega
    · exact absurd h (hlength _)
  · split at h
    · exact absurd h.symm (hlength _)
    · have heq := natText_inj (List.append_cancel_left h)
      omega

theorem keys_openRecipients {fields : List TemplateField} {recipients : List EditorRecipient}
    (h : openRecipients fields = some recipients) : (recipients.map EditorRecipient.key).Nodup := by
  unfold openRecipients at h
  dsimp only at h
  split at h
  · obtain rfl := Option.some.inj h
    rw [List.map_map]
    exact List.nodup_range.map fun i j hij => recipientKeyAt_inj hij
  · cases h

end ESignSoft.Prepare
