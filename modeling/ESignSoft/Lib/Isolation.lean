import Mathlib.Data.List.Basic

/-!
# Seeing only one's own part of a machine

A machine takes an event to the next state with a reply, or refuses it.  A part of it is a projection of its
state, with a machine of its own on what is projected: the part is isolated when the events that concern it
are answered as its own machine answers them, and all others leave the projection alone.

* `Transcript` — a run with its replies, each step meeting a side condition, and `replay`, which makes one;
* `Transcript.invariant` — what every step keeps holds at the end of a run;
* `Isolates.transcript` — of a run of the whole, the steps that concern the part are a run of the part.
-/

namespace ESignSoft.Lib

universe u v w x y

variable {σ : Type u} {ε : Type v} {ω : Type w} {σ' : Type x} {ε' : Type y}

/-- The events of a run, each with its reply. -/
inductive Transcript (step : σ → ε → Option (σ × ω)) (ok : σ → ε → Prop) : σ → List (ε × ω) → σ → Prop
  | nil (s : σ) : Transcript step ok s [] s
  | cons {s t s' : σ} {e : ε} {o : ω} {log : List (ε × ω)} (hok : ok s e) (hstep : step s e = some (t, o))
      (rest : Transcript step ok t log s') : Transcript step ok s ((e, o) :: log) s'

/-- What every step keeps holds at the end of a run. -/
theorem Transcript.invariant {step : σ → ε → Option (σ × ω)} {ok : σ → ε → Prop} {I : σ → Prop}
    (hkeeps : ∀ s e t o, I s → ok s e → step s e = some (t, o) → I t) {s s' : σ} {log : List (ε × ω)}
    (h : Transcript step ok s log s') (hs : I s) : I s' := by
  induction h with
  | nil s => exact hs
  | cons hok hstep rest ih => exact ih (hkeeps _ _ _ _ hs hok hstep)

/-- What every step keeps holds where an event is taken, and what follows there of its reply holds of every
event in the log. -/
theorem Transcript.forall_mem {step : σ → ε → Option (σ × ω)} {ok : σ → ε → Prop} {I : σ → Prop}
    {Q : ε × ω → Prop} (hkeeps : ∀ s e t o, I s → ok s e → step s e = some (t, o) → I t)
    (hreply : ∀ s e t o, I s → ok s e → step s e = some (t, o) → Q (e, o)) {s s' : σ}
    {log : List (ε × ω)} (h : Transcript step ok s log s') (hs : I s) : ∀ entry ∈ log, Q entry := by
  induction h with
  | nil s =>
      intro entry hentry
      cases hentry
  | cons hok hstep rest ih =>
      intro entry hentry
      rcases List.mem_cons.mp hentry with rfl | hmem
      · exact hreply _ _ _ _ hs hok hstep
      · exact ih (hkeeps _ _ _ _ hs hok hstep) entry hmem

/-- A weaker side condition allows at least the same runs. -/
theorem Transcript.mono {step : σ → ε → Option (σ × ω)} {ok ok' : σ → ε → Prop} (hok : ∀ s e, ok s e → ok' s e)
    {s s' : σ} {log : List (ε × ω)} (h : Transcript step ok s log s') : Transcript step ok' s log s' := by
  induction h with
  | nil => exact Transcript.nil _
  | cons hs hstep rest ih => exact Transcript.cons (hok _ _ hs) hstep ih

/-- Replay a list of events whose every step passes a check where it is taken. -/
def replay (step : σ → ε → Option (σ × ω)) (check : σ → ε → Bool) (s : σ) : List ε → Option (List (ε × ω) × σ)
  | [] => some ([], s)
  | e :: es =>
      if check s e then
        (step s e).bind fun r => (replay step check r.1 es).map fun rest => ((e, r.2) :: rest.1, rest.2)
      else none

theorem transcript_of_replay {step : σ → ε → Option (σ × ω)} {check : σ → ε → Bool} {es : List ε} {s s' : σ}
    {log : List (ε × ω)} (h : replay step check s es = some (log, s')) :
    Transcript step (fun s e => check s e = true) s log s' := by
  induction es generalizing s log with
  | nil =>
      cases h
      exact Transcript.nil _
  | cons e es ih =>
      unfold replay at h
      split at h
      · rename_i hcheck
        obtain ⟨⟨t, o⟩, hstep, hrest⟩ := Option.bind_eq_some_iff.mp h
        obtain ⟨⟨rest, t'⟩, hreplay, hpair⟩ := Option.map_eq_some_iff.mp hrest
        cases hpair
        exact Transcript.cons hcheck hstep (ih hreplay)
      · cases h

/-- The entries of a log that concern a part. -/
def concerning (of : ε → Option ε') (log : List (ε × ω)) : List (ε' × ω) :=
  log.filterMap fun entry => (of entry.1).map fun e => (e, entry.2)

/-- A part of a machine that nothing but the events that concern it can tell from a machine of its own. -/
structure Isolates (step : σ → ε → Option (σ × ω)) (ok : σ → ε → Prop)
    (own : σ' → ε' → Option (σ' × ω)) where
  proj : σ → σ'
  of : ε → Option ε'
  inv : σ → Prop
  keeps : ∀ s e t o, inv s → ok s e → step s e = some (t, o) → inv t
  mine : ∀ s e e' t o, inv s → ok s e → of e = some e' → step s e = some (t, o) →
    own (proj s) e' = some (proj t, o)
  others : ∀ s e t o, inv s → ok s e → of e = none → step s e = some (t, o) → proj t = proj s

/-- **A run of the whole is a run of the part**, with the same replies. -/
theorem Isolates.transcript {step : σ → ε → Option (σ × ω)} {ok : σ → ε → Prop}
    {own : σ' → ε' → Option (σ' × ω)} (P : Isolates step ok own) {s s' : σ} {log : List (ε × ω)}
    (h : Transcript step ok s log s') (hs : P.inv s) :
    Transcript own (fun _ _ => True) (P.proj s) (concerning P.of log) (P.proj s') := by
  induction h with
  | nil s => exact Transcript.nil _
  | @cons s t s' e o log hok hstep rest ih =>
      have ht := ih (P.keeps _ _ _ _ hs hok hstep)
      unfold concerning at ht ⊢
      rw [List.filterMap_cons]
      cases hof : P.of e with
      | none =>
          rw [P.others _ _ _ _ hs hok hof hstep] at ht
          exact ht
      | some e' => exact Transcript.cons trivial (P.mine _ _ _ _ _ hs hok hof hstep) ht

end ESignSoft.Lib
