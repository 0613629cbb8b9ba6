import ESignSoft.Lib.Timeline
import ESignSoft.Prepare.Editor

/-!
# Undo and redo in the editor

Whatever changes the layout goes through `commit`, which puts the layout on record, except the moving and
resizing of a box with the pointer: its patches are applied one by one as the pointer moves, and none of
them is committed.

* `Editor.timeline` — the layouts an editor holds; `undo`, `redo` and `commit` are those of a timeline;
* `Session` — an editor together with what has been on the screen;
* `edit_undone` — what an editor that is faithful to the screen undoes and redoes after an action;
* `undo_redo_iff` — undo and redo are faithful to what has been on the screen exactly when no box is dragged;
* `drag_forgotten` — a field that is placed, dragged, and gone after one undo.
-/

namespace ESignSoft.Prepare

open ESignSoft.Lib ESignSoft.Lib.JsText ESignSoft.Contracts

abbrev Layout : Type := List TemplateField

/-! ## Drags -/

def MIN_W : ℚ := 2 / 100

def MIN_H : ℚ := 12 / 1000

def clamp (v lo hi : ℚ) : ℚ := min hi (max lo v)

inductive GestureMode
  | move
  | resize
  deriving DecidableEq

/-- The pointer pressed down on a box, or on its corner, of a page of that size on the screen. -/
structure Press where
  field : TemplateField
  mode : GestureMode
  boundsWidth : ℚ
  boundsHeight : ℚ
  startX : ℚ
  startY : ℚ

/-- The patch of `onMove`, from the place and size the box had when the drag started. -/
def Press.patch (p : Press) (clientX clientY : ℚ) (f : TemplateField) : TemplateField :=
  let dx := (clientX - p.startX) / p.boundsWidth
  let dy := (clientY - p.startY) / p.boundsHeight
  match p.mode with
  | .move =>
      { f with
        x := clamp (p.field.x + dx) 0 (1 - p.field.w)
        y := clamp (p.field.y + dy) 0 (1 - p.field.h) }
  | .resize =>
      { f with
        w := clamp (p.field.w + dx) MIN_W (1 - p.field.x)
        h := clamp (p.field.h + dy) MIN_H (1 - p.field.y) }

/-- The pointer is pressed, moves to the given places and is let go. -/
def Editor.startGesture (e : Editor) (p : Press) (moves : List (ℚ × ℚ)) : Editor :=
  moves.foldl (fun e m => e.changeField p.field.id true (p.patch m.1 m.2))
    { e with selectedId := some p.field.id }

/-! ## What the sender does -/

inductive Doing
  | once (a : Action)
  /-- `Remove all fields`. -/
  | removeAll
  /-- A drag from the press to the release; without a move of the pointer it is a click. -/
  | gesture (p : Press) (moves : List (ℚ × ℚ))

/-- `none` where the control is disabled, or not on the screen. -/
def Editor.perform (e : Editor) : Doing → Option Editor
  | .once a => e.step a
  | .removeAll => if e.fields.length = 0 then none else some (e.commit [])
  | .gesture p moves =>
      if p.field ∈ e.fields ∧ (p.mode = .resize → e.selectedId = some p.field.id) then
        some (e.startGesture p moves)
      else none

/-- What something is to the history. -/
inductive Effect
  /-- An action on the layout: added, pasted, deleted, changed, all at once, or dragged. -/
  | edit
  | move (m : Move)
  /-- Recipients, selection and clipboard are no part of the layout. -/
  | other

def Action.effect (e : Editor) : Action → Effect
  | .addField .. | .changeField .. | .requireAll | .clearActive => .edit
  | .deleteSelected => if e.selectedId.isSome then .edit else .other
  | .paste _ => if e.clipboard.isSome then .edit else .other
  | .openReview _ => if e.fields.head?.all fun first => first.recipientKey == [] then .other else .edit
  | .undo => .move .undo
  | .redo => .move .redo
  | .addRecipient | .removeRecipient _ | .updateRecipient .. | .activate _ | .select _ | .copySelected => .other

def Doing.effect (e : Editor) : Doing → Effect
  | .once a => a.effect e
  | .removeAll => .edit
  | .gesture _ moves => if moves.isEmpty then .other else .edit

/-- It consists of patches of place or size alone. -/
def Doing.geometryOnly : Doing → Bool
  | .once (.changeField _ geometryOnly _) => geometryOnly
  | .once _ => false
  | .removeAll => false
  | .gesture _ moves => !moves.isEmpty

/-! ## The history of an editor -/

/-- How many layouts a commit leaves on record: the last ones of those there, and the one it puts there. -/
def keptLayouts : ℕ := HISTORY_LIMIT + 1

def Editor.timeline (e : Editor) : Timeline Layout := ⟨e.past, e.fields, e.future⟩

theorem timeline_commit (e : Editor) (next : Layout) :
    (e.commit next).timeline = e.timeline.act keptLayouts next := by
  apply Timeline.ext
  · -- The past is cut before it grows here, and after it has grown there.
    have hcut : e.past.length + 1 - keptLayouts = e.past.length - HISTORY_LIMIT := Nat.add_sub_add_right _ 1 _
    have hkept : 0 < keptLayouts := Nat.succ_pos HISTORY_LIMIT
    rw [Timeline.before_act hkept]
    show e.past.drop (e.past.length - HISTORY_LIMIT) ++ [e.fields] =
      e.past.drop (e.past.length + 1 - keptLayouts) ++ [e.fields]
    rw [hcut]
  · rfl
  · rfl

theorem timeline_undo (e : Editor) : e.undo.timeline = e.timeline.undo := by
  unfold Editor.undo Timeline.undo Editor.timeline
  dsimp only
  cases e.past.getLast? with
  | none => rfl
  | some last => rfl

theorem timeline_redo (e : Editor) : e.redo.timeline = e.timeline.redo := by
  unfold Editor.redo Timeline.redo Editor.timeline
  dsimp only
  cases hfuture : e.future with
  | nil => simp only [hfuture]
  | cons next rest => rfl

/-- What it makes of what was on the screen, where it leads to the layout `next`. -/
def Effect.on (next : Layout) (t : Timeline Layout) : Effect → Timeline Layout
  | .edit => t.act keptLayouts next
  | .move m => t.move m
  | .other => t

/-- A step other than a drag changes the history of the editor as its effect says: what commits is an edit,
and what commits nothing is no part of the layout. -/
theorem timeline_step {e e' : Editor} {a : Action} (h : e.step a = some e')
    (hgeometry : (Doing.once a).geometryOnly = false) : e'.timeline = (a.effect e).on e'.fields e.timeline := by
  cases a with
  | addField id type page x y =>
      obtain rfl := Option.some.inj h
      exact timeline_commit e _
  | changeField id geometryOnly patch =>
      obtain rfl := Option.some.inj h
      obtain rfl : geometryOnly = false := hgeometry
      exact timeline_commit e _
  | requireAll =>
      obtain rfl := Option.some.inj h
      exact timeline_commit e _
  | clearActive =>
      simp only [Editor.step] at h
      split at h
      · cases h
      · obtain rfl := Option.some.inj h
        exact timeline_commit e _
  | deleteSelected =>
      obtain rfl := Option.some.inj h
      unfold Editor.deleteSelected Action.effect
      cases e.selectedId with
      | none => rfl
      | some id => exact timeline_commit e _
  | paste id =>
      obtain rfl := Option.some.inj h
      unfold Editor.paste Action.effect
      cases e.clipboard with
      | none => rfl
      | some src => exact timeline_commit e _
  | openReview randomUUID =>
      obtain rfl := Option.some.inj h
      unfold Editor.openReview Action.effect
      dsimp only
      split
      · rfl
      · exact timeline_commit e _
  | undo =>
      obtain rfl := Option.some.inj h
      exact timeline_undo e
  | redo =>
      obtain rfl := Option.some.inj h
      exact timeline_redo e
  | addRecipient =>
      simp only [Editor.step] at h
      split at h
      · cases h
      · obtain rfl := Option.some.inj h
        rfl
  | removeRecipient i =>
      simp only [Editor.step] at h
      split at h
      · cases h
      · split at h
        · cases h
        · obtain rfl := Option.some.inj h
          rfl
  | updateRecipient i patch =>
      obtain rfl := Option.some.inj h
      rfl
  | activate i =>
      obtain ⟨r, -, rfl⟩ := Option.map_eq_some_iff.mp h
      rfl
  | select id =>
      obtain rfl := Option.some.inj h
      rfl
  | copySelected =>
      obtain rfl := Option.some.inj h
      unfold Editor.copySelected
      split <;> rfl

/-- A drag shows another layout and leaves the history as it is. -/
theorem timeline_startGesture (e : Editor) (p : Press) (moves : List (ℚ × ℚ)) :
    (e.startGesture p moves).timeline = { e.timeline with now := (e.startGesture p moves).fields } := by
  unfold Editor.startGesture
  have hpressed : e.timeline = Editor.timeline { e with selectedId := some p.field.id } := rfl
  rw [hpressed]
  generalize { e with selectedId := some p.field.id } = e
  induction moves generalizing e with
  | nil => rfl
  | cons m moves ih =>
      rw [List.foldl_cons]
      exact ih (e.changeField p.field.id true (p.patch m.1 m.2))

/-- What is not a drag is in the history of the editor as what it is. -/
theorem timeline_perform {e e' : Editor} {d : Doing} (h : e.perform d = some e')
    (hgeometry : d.geometryOnly = false) : e'.timeline = (d.effect e).on e'.fields e.timeline := by
  cases d with
  | once a => exact timeline_step h hgeometry
  | removeAll =>
      simp only [Editor.perform] at h
      split at h
      · cases h
      · obtain rfl := Option.some.inj h
        exact timeline_commit e []
  | gesture p moves =>
      simp only [Editor.perform] at h
      split at h
      · obtain rfl := Option.some.inj h
        -- Only a click is no patch at all.
        obtain rfl : moves = [] := by simpa [Doing.geometryOnly] using hgeometry
        rfl
      · cases h

theorem timeline_drag {e e' : Editor} {d : Doing} (h : e.perform d = some e') (hgeometry : d.geometryOnly = true) :
    e'.timeline = { e.timeline with now := e'.fields } ∧ d.effect e = .edit := by
  cases d with
  | once a =>
      cases a with
      | changeField id geometryOnly patch =>
          obtain rfl := Option.some.inj h
          obtain rfl : geometryOnly = true := hgeometry
          exact ⟨rfl, rfl⟩
      | _ => cases hgeometry
  | removeAll => cases hgeometry
  | gesture p moves =>
      simp only [Editor.perform] at h
      split at h
      · obtain rfl := Option.some.inj h
        refine ⟨timeline_startGesture e p moves, ?_⟩
        have hmoves : moves.isEmpty = false := by simpa [Doing.geometryOnly] using hgeometry
        simp only [Doing.effect, hmoves]
        rfl
      · cases h

/-! ## What has been on the screen -/

/-- An editor, with the layouts that have been on the screen before the one there is now and those that were
undone. -/
structure Session where
  editor : Editor
  seen : Timeline Layout

/-- A drag is one action, however many patches it is made of. -/
def Session.step (s : Session) (d : Doing) : Option Session :=
  (s.editor.perform d).map fun e => ⟨e, (d.effect s.editor).on e.fields s.seen⟩

def Session.opened (e : Editor) : Session := ⟨e, Timeline.start e.fields⟩

def Editor.move (e : Editor) : Move → Editor
  | .undo => e.undo
  | .redo => e.redo

def Editor.play (e : Editor) (moves : List Move) : Editor := moves.foldl Editor.move e

/-- However undo and redo are pressed from here on, the editor shows what was on the screen then, and offers
to undo and to redo as long as there is something. -/
def Faithful (s : Session) : Prop :=
  ∀ moves : List Move,
    (s.editor.play moves).fields = (s.seen.play moves).now ∧
    ((s.editor.play moves).past = [] ↔ (s.seen.play moves).before = []) ∧
    ((s.editor.play moves).future = [] ↔ (s.seen.play moves).after = [])

theorem timeline_play (e : Editor) (moves : List Move) : (e.play moves).timeline = e.timeline.play moves := by
  induction moves generalizing e with
  | nil => rfl
  | cons m moves ih =>
      have hmove : (e.move m).timeline = e.timeline.move m := by
        cases m with
        | undo => exact timeline_undo e
        | redo => exact timeline_redo e
      show ((e.move m).play moves).timeline = (e.timeline.move m).play moves
      rw [ih, hmove]

/-- An editor is faithful to what has been on the screen exactly when it has kept it. -/
theorem faithful_iff {s : Session} : Faithful s ↔ s.editor.timeline = s.seen := by
  rw [← Timeline.alwaysAlike_iff]
  refine forall_congr' fun moves => ?_
  rw [← timeline_play]
  constructor
  · rintro ⟨hnow, hundo, hredo⟩
    exact ⟨hnow, hundo, hredo⟩
  · rintro ⟨hnow, hundo, hredo⟩
    exact ⟨hnow, hundo, hredo⟩

/-! ## Every session -/

/-- No box is dragged, unless nothing was undone and the record is full of the very layout on the screen. -/
def Recorded (s : Session) (d : Doing) : Prop :=
  d.geometryOnly = true →
    s.editor.future = [] ∧ s.editor.past = List.replicate keptLayouts s.editor.fields

theorem faithful_opened {fields : Layout} {e : Editor} (hopen : Editor.opened fields = some e) :
    Faithful (Session.opened e) := by
  obtain ⟨recipients, -, rfl⟩ := Option.map_eq_some_iff.mp hopen
  exact faithful_iff.mpr rfl

/-- **One step** keeps the editor faithful exactly when it is on record. -/
theorem step_faithful_iff {s s' : Session} {d : Doing} (hs : Faithful s) (h : s.step d = some s') :
    Faithful s' ↔ Recorded s d := by
  obtain ⟨e', hperform, rfl⟩ := Option.map_eq_some_iff.mp h
  rw [faithful_iff] at hs ⊢
  dsimp only
  rw [← hs]
  cases hgeometry : d.geometryOnly with
  | false =>
      refine iff_of_true (timeline_perform hperform hgeometry) ?_
      intro hdrag
      rw [hgeometry] at hdrag
      cases hdrag
  | true =>
      -- The record of what was on the screen takes the layout before the drag, that of the editor does not.
      obtain ⟨hshown, hedit⟩ := timeline_drag hperform hgeometry
      rw [hshown, hedit]
      refine Iff.trans (Timeline.kept_iff (Nat.succ_pos HISTORY_LIMIT)) ?_
      exact ⟨fun hfull _ => hfull, fun hfull => hfull hgeometry⟩

/-- What a faithful editor does about an action: undo shows the layout from immediately before it, redo after
undo the one it made, and until then there is nothing to redo. -/
theorem edit_undone {s s' : Session} {d : Doing} (hs : Faithful s) (hs' : Faithful s') (h : s.step d = some s')
    (hedit : d.effect s.editor = .edit) :
    s'.editor.undo.fields = s.editor.fields ∧ s'.editor.undo.redo.fields = s'.editor.fields ∧
      s'.editor.future = [] := by
  obtain ⟨e', -, rfl⟩ := Option.map_eq_some_iff.mp h
  rw [faithful_iff] at hs hs'
  dsimp only at hs' ⊢
  rw [hedit, ← hs] at hs'
  have hact : e'.timeline = s.editor.timeline.act keptLayouts e'.fields := hs'
  have hkept : 0 < keptLayouts := Nat.succ_pos HISTORY_LIMIT
  have hundo : e'.undo.timeline = (s.editor.timeline.act keptLayouts e'.fields).undo := by rw [timeline_undo, hact]
  have hredo : e'.undo.redo.timeline = e'.timeline := by
    rw [timeline_redo, hundo, Timeline.redo_undo (by simp [Timeline.before_act hkept]), hact]
  refine ⟨?_, congrArg Timeline.now hredo, congrArg Timeline.after hact⟩
  calc e'.undo.fields = (s.editor.timeline.act keptLayouts e'.fields).undo.now := congrArg Timeline.now hundo
    _ = s.editor.fields := Timeline.undo_act hkept

/-- **Undo and redo** are faithful to what has been on the screen in every state of a run exactly when no box
is dragged or resized in it, unless the record was full of the layout on the screen. -/
theorem undo_redo_iff {fields : Layout} {e : Editor} {last : Session} (hopen : Editor.opened fields = some e)
    {doings : List Doing} (hrun : doings.foldlM Session.step (Session.opened e) = some last) :
    Along Session.step Faithful (Session.opened e) doings ↔
      AtEach Session.step Recorded (Session.opened e) doings :=
  along_iff (fun _ _ _ => step_faithful_iff) (faithful_opened hopen) hrun

/-! ## One field -/

def placed : TemplateField := newField (js "f") .signature 1 (2 / 5) (2 / 5) (js "signer")

def place : Doing := .once (.addField (js "f") .signature 1 (2 / 5) (2 / 5))

/-- The field is dragged a tenth of the page to the right. -/
def dragRight : Doing := .gesture ⟨placed, .move, 800, 1000, 300, 400⟩ [(320, 400), (380, 400)]

/-- A field placed and made required, which is undone and redone. -/
theorem undo_redo_placed :
    Along Session.step Faithful (Session.opened untagged)
      [place, .once .requireAll, .once .undo, .once .redo] := by
  have hrun : ([place, .once .requireAll, .once .undo, .once .redo].foldlM Session.step
      (Session.opened untagged)).isSome = true := by
    decide +kernel
  obtain ⟨last, hlast⟩ := Option.isSome_iff_exists.mp hrun
  refine (undo_redo_iff opened_nil hlast).mpr ?_
  intro before d s hbefore hreach hdrag
  -- None of the four is a drag.
  have hmem : d ∈ [place, .once .requireAll, .once .undo, .once .redo] :=
    hbefore.subset (List.mem_append_right before List.mem_cons_self)
  simp only [List.mem_cons, List.not_mem_nil, or_false] at hmem
  rcases hmem with rfl | rfl | rfl | rfl <;> cases hdrag

/-- A field is placed and dragged, and undo takes it away instead of moving it back. -/
theorem drag_forgotten :
    ¬ ∀ (fields : Layout) (e : Editor) (last : Session) (doings : List Doing),
      Editor.opened fields = some e → doings.foldlM Session.step (Session.opened e) = some last →
        Faithful last := by
  intro h
  have hrun : ([place, dragRight].foldlM Session.step (Session.opened untagged)).map
      (fun s => (s.editor.undo.fields, s.seen.undo.now)) = some ([], [placed]) := by
    decide +kernel
  obtain ⟨last, hlast, hfacts⟩ := Option.map_eq_some_iff.mp hrun
  obtain ⟨hundone, hseen⟩ := Prod.mk.inj hfacts
  have hsame : last.editor.undo.fields = last.seen.undo.now := (h [] untagged last _ opened_nil hlast [.undo]).1
  rw [hundone, hseen] at hsame
  cases hsame

end ESignSoft.Prepare
