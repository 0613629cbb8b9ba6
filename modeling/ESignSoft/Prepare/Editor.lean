import ESignSoft.Lib.Runs
import ESignSoft.Prepare.CopyFields
import Mathlib.Data.List.Nodup

/-!
# The prepare flow

The sender sets up recipients, places fields for them, goes back to either, and may undo what was done to
the fields.  A recipient who owns no field can be removed at any position; a new one gets the key of the
position after the last.

* `Editor.step` — one thing the sender does, where its control is not disabled;
* `step_keys_iff` — what one step does to the keys;
* `keys_distinct_iff` — all recipients have different keys throughout exactly when each one added finds the
  key of its position free;
* `removed_in_between` — a recipient added after another was removed in between.
-/

namespace ESignSoft.Prepare

open ESignSoft.Lib ESignSoft.Lib.JsText ESignSoft.Contracts

/-! ## The palette -/

/-- `FIELD_META`: the width and height a new field is placed with. -/
def FIELD_META : FieldType → ℚ × ℚ
  | .signature => (24 / 100, 55 / 1000)
  | .initial => (9 / 100, 45 / 1000)
  | .stamp => (14 / 100, 1 / 10)
  | .date => (17 / 100, 28 / 1000)
  | .name => (24 / 100, 28 / 1000)
  | .first_name => (17 / 100, 28 / 1000)
  | .last_name => (17 / 100, 28 / 1000)
  | .email => (26 / 100, 28 / 1000)
  | .company => (24 / 100, 28 / 1000)
  | .title => (2 / 10, 28 / 1000)
  | .phone => (2 / 10, 28 / 1000)
  | .address => (34 / 100, 28 / 1000)
  | .text => (22 / 100, 28 / 1000)
  | .number => (12 / 100, 28 / 1000)
  | .date_input => (14 / 100, 28 / 1000)
  | .checkbox => (22 / 1000, 16 / 1000)
  | .dropdown => (22 / 100, 28 / 1000)
  | .radio => (22 / 100, 28 / 1000)

def isChoice (type : FieldType) : Bool := type == .dropdown || type == .radio

def DEFAULT_OPTIONS : List JsString := [js "Option 1", js "Option 2"]

def newField (id : JsString) (type : FieldType) (page : Int) (x y : ℚ) (activeKey : JsString) :
    TemplateField where
  id := id
  type := type
  page := page
  x := min (1 - (FIELD_META type).1) (max 0 x)
  y := min (1 - (FIELD_META type).2) (max 0 y)
  w := (FIELD_META type).1
  h := (FIELD_META type).2
  required := type != .checkbox
  recipientKey := activeKey
  label := none
  options := if isChoice type then some DEFAULT_OPTIONS else none

/-! ## The editor -/

structure Editor where
  fields : List TemplateField
  recipients : List EditorRecipient
  activeKey : JsString
  selectedId : Option JsString
  clipboard : Option TemplateField
  past : List (List TemplateField)
  future : List (List TemplateField)
  deriving DecidableEq

/-- A template opened for preparing, unless it asks for more recipients than an array can hold. -/
def Editor.opened (fields : List TemplateField) : Option Editor :=
  (openRecipients fields).map fun recipients =>
    { fields
      recipients
      activeKey := js "signer"
      selectedId := none
      clipboard := none
      past := []
      future := [] }

def HISTORY_LIMIT : Nat := 60

def Editor.commit (e : Editor) (next : List TemplateField) : Editor :=
  { e with
    past := e.past.drop (e.past.length - HISTORY_LIMIT) ++ [e.fields]
    future := []
    fields := next }

def Editor.undo (e : Editor) : Editor :=
  match e.past.getLast? with
  | none => { e with selectedId := none }
  | some last =>
      { e with past := e.past.dropLast, future := e.fields :: e.future, fields := last, selectedId := none }

def Editor.redo (e : Editor) : Editor :=
  match e.future with
  | [] => e
  | next :: rest => { e with future := rest, past := e.past ++ [e.fields], fields := next }

def Editor.selected (e : Editor) : Option TemplateField := e.fields.find? fun f => some f.id == e.selectedId

def Editor.addField (e : Editor) (id : JsString) (type : FieldType) (page : Int) (x y : ℚ) : Editor :=
  { e.commit (e.fields ++ [newField id type page x y e.activeKey]) with selectedId := some id }

/-- A change of place or size alone, as in a drag, leaves no entry in the history. -/
def Editor.changeField (e : Editor) (id : JsString) (geometryOnly : Bool)
    (patch : TemplateField → TemplateField) : Editor :=
  let next := e.fields.map fun f => if f.id == id then patch f else f
  if geometryOnly then { e with fields := next } else e.commit next

def Editor.deleteSelected (e : Editor) : Editor :=
  match e.selectedId with
  | none => e
  | some id => { e.commit (e.fields.filter fun f => f.id != id) with selectedId := none }

def Editor.copySelected (e : Editor) : Editor :=
  match e.selected with
  | none => e
  | some f => { e with clipboard := some f }

/-- Beside its original, and no further than the edge. -/
def Editor.paste (e : Editor) (id : JsString) : Editor :=
  match e.clipboard with
  | none => e
  | some src =>
      { e.commit (e.fields ++
          [{ src with id, x := min (1 - src.w) (src.x + 2 / 100), y := min (1 - src.h) (src.y + 2 / 100) }])
        with selectedId := some id }

def Editor.openReview (e : Editor) (randomUUID : Nat → Nat → JsString) : Editor :=
  if e.fields.head?.all fun first => first.recipientKey == [] then e
  else e.commit (copyFieldsToEverySigner randomUUID e.fields e.recipients)

def Editor.fieldCountFor (e : Editor) (key : JsString) : Nat :=
  (e.fields.filter fun f => f.recipientKey == key).length

/-- New recipients; where the active one is gone, the first takes its place. -/
def Editor.setRecipients (e : Editor) (next : List EditorRecipient) : Editor :=
  { e with
    recipients := next
    activeKey :=
      if next.any fun r => r.key == e.activeKey then e.activeKey
      else (next.head?.map EditorRecipient.key).getD (js "signer") }

/-- What is typed into the row of a recipient, or picked there. -/
structure RecipientPatch where
  name : Option JsString
  email : Option JsString
  role : Option RecipientRole

def RecipientPatch.apply (patch : RecipientPatch) (r : EditorRecipient) : EditorRecipient :=
  { r with
    name := patch.name.getD r.name
    email := patch.email.getD r.email
    role := patch.role.getD r.role }

inductive Action
  | addRecipient
  | removeRecipient (i : Nat)
  | updateRecipient (i : Nat) (patch : RecipientPatch)
  /-- A recipient picked as the owner of the next fields. -/
  | activate (i : Nat)
  | select (id : Option JsString)
  | addField (id : JsString) (type : FieldType) (page : Int) (x y : ℚ)
  | changeField (id : JsString) (geometryOnly : Bool) (patch : TemplateField → TemplateField)
  | deleteSelected
  | copySelected
  | paste (id : JsString)
  | undo
  | redo
  /-- `Make every field required`. -/
  | requireAll
  /-- `Clear this recipient’s fields`. -/
  | clearActive
  | openReview (randomUUID : Nat → Nat → JsString)

/-- One step of the sender; `none` where the control is disabled. -/
def Editor.step (e : Editor) : Action → Option Editor
  | .addRecipient =>
      if e.recipients.length ≥ 6 then none
      else some (e.setRecipients (e.recipients ++ [blankRecipient e.recipients.length]))
  | .removeRecipient i =>
      match e.recipients[i]? with
      | none => none
      | some r =>
          if e.recipients.length = 1 ∨ e.fieldCountFor r.key > 0 then none
          else some (e.setRecipients (e.recipients.eraseIdx i))
  | .updateRecipient i patch => some (e.setRecipients (e.recipients.modify i patch.apply))
  | .activate i => (e.recipients[i]?).map fun r => { e with activeKey := r.key }
  | .select id => some { e with selectedId := id }
  | .addField id type page x y => some (e.addField id type page x y)
  | .changeField id geometryOnly patch => some (e.changeField id geometryOnly patch)
  | .deleteSelected => some e.deleteSelected
  | .copySelected => some e.copySelected
  | .paste id => some (e.paste id)
  | .undo => some e.undo
  | .redo => some e.redo
  | .requireAll => some (e.commit (e.fields.map fun f => { f with required := true }))
  | .clearActive =>
      if e.fieldCountFor e.activeKey = 0 then none
      else some (e.commit (e.fields.filter fun f => f.recipientKey != e.activeKey))
  | .openReview randomUUID => some (e.openReview randomUUID)

/-! ## The keys -/

def Editor.keys (e : Editor) : List JsString := e.recipients.map EditorRecipient.key

/-- No two recipients are handed the same boxes. -/
def DistinctKeys (e : Editor) : Prop := e.keys.Nodup

/-- A recipient that is added finds the key of its position free. -/
def KeyFree (e : Editor) : Action → Prop
  | .addRecipient => recipientKeyAt e.recipients.length ∉ e.keys
  | _ => True

/-- What is done to the fields leaves the recipients alone. -/
theorem keys_of_fields_step {e e' : Editor} {a : Action} (h : e.step a = some e')
    (hadd : a ≠ .addRecipient) (hremove : ∀ i, a ≠ .removeRecipient i)
    (hupdate : ∀ i patch, a ≠ .updateRecipient i patch) : e'.recipients = e.recipients := by
  cases a with
  | addRecipient => exact absurd rfl hadd
  | removeRecipient i => exact absurd rfl (hremove i)
  | updateRecipient i patch => exact absurd rfl (hupdate i patch)
  | activate i =>
      obtain ⟨r, -, rfl⟩ := Option.map_eq_some_iff.mp h
      rfl
  | clearActive =>
      simp only [Editor.step] at h
      split at h
      · cases h
      · obtain rfl := Option.some.inj h
        rfl
  | changeField id geometryOnly patch =>
      obtain rfl := Option.some.inj h
      unfold Editor.changeField
      dsimp only
      split <;> rfl
  | openReview randomUUID =>
      obtain rfl := Option.some.inj h
      unfold Editor.openReview
      split <;> rfl
  | deleteSelected =>
      obtain rfl := Option.some.inj h
      unfold Editor.deleteSelected
      split <;> rfl
  | copySelected =>
      obtain rfl := Option.some.inj h
      unfold Editor.copySelected
      split <;> rfl
  | paste id =>
      obtain rfl := Option.some.inj h
      unfold Editor.paste
      split <;> rfl
  | undo =>
      obtain rfl := Option.some.inj h
      unfold Editor.undo
      split <;> rfl
  | redo =>
      obtain rfl := Option.some.inj h
      unfold Editor.redo
      split <;> rfl
  | select id => obtain rfl := Option.some.inj h; rfl
  | addField id type page x y => obtain rfl := Option.some.inj h; rfl
  | requireAll => obtain rfl := Option.some.inj h; rfl

theorem map_key_modify (recipients : List EditorRecipient) (i : Nat) (patch : RecipientPatch) :
    (recipients.modify i patch.apply).map EditorRecipient.key = recipients.map EditorRecipient.key := by
  refine List.ext_getElem? fun j => ?_
  rw [List.getElem?_map, List.getElem?_map, List.getElem?_modify]
  cases recipients[j]? with
  | none => rfl
  | some r =>
      split
      · rfl
      · rfl

/-- **One step** keeps the keys distinct exactly when it adds nobody whose key is taken. -/
theorem step_keys_iff {e e' : Editor} {a : Action} (hkeys : DistinctKeys e) (h : e.step a = some e') :
    DistinctKeys e' ↔ KeyFree e a := by
  have hquiet : e'.keys = e.keys → (DistinctKeys e' ↔ True) := by
    intro hsame
    rw [DistinctKeys, hsame, iff_true]
    exact hkeys
  cases a with
  | addRecipient =>
      simp only [Editor.step] at h
      split at h
      · cases h
      · obtain rfl := Option.some.inj h
        have hnew : (e.setRecipients (e.recipients ++ [blankRecipient e.recipients.length])).keys =
            e.keys.concat (recipientKeyAt e.recipients.length) := by
          simp [Editor.keys, Editor.setRecipients, blankRecipient]
        -- The new key is the only one that can be there already.
        rw [DistinctKeys, hnew, List.nodup_concat]
        exact and_iff_left hkeys
  | removeRecipient i =>
      simp only [Editor.step] at h
      split at h
      · cases h
      · split at h
        · cases h
        · obtain rfl := Option.some.inj h
          exact iff_of_true (hkeys.sublist ((List.eraseIdx_sublist e.recipients i).map EditorRecipient.key))
            trivial
  | updateRecipient i patch =>
      obtain rfl := Option.some.inj h
      exact hquiet (map_key_modify e.recipients i patch)
  | _ => exact hquiet (congrArg (List.map EditorRecipient.key) (keys_of_fields_step h (by simp) (by simp) (by simp)))

/-- **Recipient keys stay distinct** in every state of a run exactly when everyone who is added in it finds
the key of their position free. -/
theorem keys_distinct_iff {fields : List TemplateField} {e last : Editor} (hopen : Editor.opened fields = some e)
    {actions : List Action} (hrun : actions.foldlM Editor.step e = some last) :
    Along Editor.step DistinctKeys e actions ↔ AtEach Editor.step KeyFree e actions := by
  refine along_iff (fun s a s' => step_keys_iff) ?_ hrun
  obtain ⟨recipients, hrecipients, rfl⟩ := Option.map_eq_some_iff.mp hopen
  exact keys_openRecipients hrecipients

/-! ## An untagged layout -/

/-- A layout without fields, opened for one signer. -/
def untagged : Editor where
  fields := []
  recipients := [blankRecipient 0]
  activeKey := js "signer"
  selectedId := none
  clipboard := none
  past := []
  future := []

theorem opened_nil : Editor.opened [] = some untagged := by decide +kernel

/-- Where nobody is removed, each recipient finds its key free. -/
theorem keys_distinct_two_added :
    Along Editor.step DistinctKeys untagged [.addRecipient, .addRecipient] := by
  have hfree : KeyFree untagged .addRecipient := by
    unfold KeyFree
    decide +kernel
  have hfree' : KeyFree (untagged.setRecipients [blankRecipient 0, blankRecipient 1]) .addRecipient := by
    unfold KeyFree
    decide +kernel
  have hstep : untagged.step .addRecipient =
      some (untagged.setRecipients [blankRecipient 0, blankRecipient 1]) := rfl
  have hrun : [Action.addRecipient, .addRecipient].foldlM Editor.step untagged =
      some ((untagged.setRecipients [blankRecipient 0, blankRecipient 1]).setRecipients
        [blankRecipient 0, blankRecipient 1, blankRecipient 2]) := rfl
  exact (keys_distinct_iff opened_nil hrun).mpr
    ((atEach_cons hstep).mpr ⟨hfree, (atEach_cons rfl).mpr ⟨hfree', atEach_nil⟩⟩)

/-- Of three recipients the second is removed, and the next one is given the key of the third. -/
theorem removed_in_between :
    ¬ ∀ (fields : List TemplateField) (e last : Editor) (actions : List Action),
      Editor.opened fields = some e → actions.foldlM Editor.step e = some last → DistinctKeys last := by
  intro h
  obtain ⟨last, hlast, hkeys⟩ : ∃ last,
      [Action.addRecipient, .addRecipient, .removeRecipient 1, .addRecipient].foldlM Editor.step untagged =
        some last ∧ last.keys = [js "signer", js "signer-3", js "signer-3"] :=
    ⟨_, rfl, by decide +kernel⟩
  have hdistinct := h [] untagged last _ opened_nil hlast
  rw [DistinctKeys, hkeys] at hdistinct
  exact absurd hdistinct (by decide +kernel)

end ESignSoft.Prepare
