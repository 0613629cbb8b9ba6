import ESignSoft.Operations.RateLimit
import Std.Data.HashMap.Lemmas

/-!
# The limiter of one instance

`SlidingWindowRateLimiter` keeps a list of times for each key and prunes it on every call; once it holds
more than ten thousand keys, an admitted call also drops every key whose list has run out.  The relay of
the signing app has the same limiter with constants of its own.  Neither the pruning nor the clean-up can
be told from the answers.

* `allowWith_spec` — one call answers as the reference limiter, whenever it cleans up;
* `limiter_eq_reference` — every sequence of calls gets the answers of a limiter that forgets nothing;
* `allowWith_late` — a call counted later than the time it reports is still admitted only below the cap;
* `Floor.length_le` — so of calls counted in time, no window that much shorter holds more than `max`.
-/

namespace ESignSoft.Operations

open ESignSoft.Lib.JsText ESignSoft.Lib.SlidingWindow

/-- `hits`. -/
abbrev Hits := Std.HashMap JsString (List Int)

/-- `allow(key, now)`, which cleans up after an admitted call when `cleans` says so of the number of
keys. -/
def allowWith (cleans : Nat → Bool) (max windowMs : Nat) (hits : Hits) (key : JsString) (now : Int) :
    Bool × Hits :=
  let answer := SlidingWindowRateLimiter.allow max windowMs (hits[key]?.getD []) now
  let kept := hits.insert key answer.2
  (answer.1,
    if answer.1 && cleans kept.size then kept.filter fun _ v => !v.all fun t => t ≤ now - windowMs
    else kept)

def SlidingWindowRateLimiter.allowKey (max windowMs : Nat) (hits : Hits) (key : JsString) (now : Int) :
    Bool × Hits :=
  allowWith (fun size => size > 10000) max windowMs hits key now

/-! ## The edge of the signing app -/

def WINDOW_MS : Nat := 60000

def MAX_PER_WINDOW : Nat := 40

def allowRequest (hits : Hits) (ip : JsString) (now : Int) : Bool × Hits :=
  allowWith (fun size => size > 10000) MAX_PER_WINDOW WINDOW_MS hits ip now

/-! ## The reference -/

/-- The limiter that keeps every admitted call, newest first. -/
def reference (max windowMs : Nat) (admitted : List (JsString × Int)) (key : JsString) (now : Int) :
    Bool × List (JsString × Int) :=
  if (admitted.countP fun call => call.1 == key && decide (now - windowMs < call.2 ∧ call.2 ≤ now)) < max
  then (true, (key, now) :: admitted)
  else (false, admitted)

/-- The answers to some calls in turn. -/
def decisions {σ : Type} (allow : σ → JsString → Int → Bool × σ) : σ → List (JsString × Int) → List Bool
  | _, [] => []
  | s, call :: rest => (allow s call.1 call.2).1 :: decisions allow (allow s call.1 call.2).2 rest

def timesOf (key : JsString) (admitted : List (JsString × Int)) : List Int :=
  (admitted.filter fun call => call.1 == key).map Prod.snd

/-- As far as a window ending no earlier than the clock can see, what is kept for a key is what was
admitted under it. -/
structure Agrees (windowMs : Nat) (clock : Int) (hits : Hits) (admitted : List (JsString × Int)) : Prop where
  past : ∀ call ∈ admitted, call.2 ≤ clock
  counted : ∀ key since, clock - windowMs ≤ since →
    countAfter since (hits[key]?.getD []) = countAfter since (timesOf key admitted)

theorem reference_count {windowMs : Nat} {now : Int} {admitted : List (JsString × Int)}
    (h : ∀ call ∈ admitted, call.2 ≤ now) (key : JsString) :
    (admitted.countP fun call => call.1 == key && decide (now - windowMs < call.2 ∧ call.2 ≤ now)) =
      countAfter (now - windowMs) (timesOf key admitted) := by
  unfold countAfter timesOf
  rw [List.countP_map, List.countP_filter]
  refine List.countP_congr fun call hcall => ?_
  have hpast := h call hcall
  simp only [Function.comp_apply, Bool.and_eq_true, decide_eq_true_eq]
  tauto

theorem countAfter_filter {since cutoff : Int} (h : cutoff ≤ since) (log : List Int) :
    countAfter since (log.filter fun t => cutoff < t) = countAfter since log := by
  have hmap : countAfter since ((log.filter fun t => cutoff < id t).map id) = countAfter since (log.map id) :=
    countAfter_map_filter h log
  simpa using hmap

theorem countAfter_eq_zero {since cutoff : Int} (h : cutoff ≤ since) {log : List Int}
    (hout : (log.all fun t => t ≤ cutoff) = true) : countAfter since log = 0 := by
  rw [countAfter, List.countP_eq_zero]
  intro t ht
  have hold := of_decide_eq_true (List.all_eq_true.mp hout t ht)
  rw [decide_eq_true_eq]
  omega

/-- Dropping the keys whose times have all left the window loses nothing that is counted later. -/
theorem countAfter_cleaned {since cutoff : Int} (h : cutoff ≤ since) (hits : Hits) (key : JsString) :
    countAfter since ((hits.filter fun _ v => !v.all fun t => t ≤ cutoff)[key]?.getD []) =
      countAfter since (hits[key]?.getD []) := by
  rw [Std.HashMap.getElem?_filter']
  cases hkept : hits[key]? with
  | none => rfl
  | some log =>
      cases hout : log.all fun t => t ≤ cutoff with
      | true =>
          have hzero := countAfter_eq_zero h hout
          simp only [Option.filter, hout, Bool.not_true, Bool.false_eq_true, if_false, Option.getD_none,
            Option.getD_some, hzero]
          rfl
      | false => simp [Option.filter, hout]

/-- The list that is kept for the key of a call counts as before for every other key. -/
theorem counted_insert {windowMs : Nat} {clock now : Int} {hits : Hits} {admitted : List (JsString × Int)}
    (h : Agrees windowMs clock hits admitted) (hnow : clock ≤ now) {key : JsString} {log : List Int}
    {admitted' : List (JsString × Int)}
    (hkey : ∀ since, now - windowMs ≤ since → countAfter since log = countAfter since (timesOf key admitted'))
    (hother : ∀ key', key' ≠ key → timesOf key' admitted' = timesOf key' admitted) (key' : JsString)
    {since : Int} (hsince : now - windowMs ≤ since) :
    countAfter since ((hits.insert key log)[key']?.getD []) = countAfter since (timesOf key' admitted') := by
  rw [Std.HashMap.getElem?_insert]
  by_cases hsame : key = key'
  · subst hsame
    rw [if_pos (beq_self_eq_true key)]
    exact hkey since hsince
  · rw [if_neg (by simpa using hsame), hother key' (Ne.symm hsame)]
    exact h.counted key' since (by omega)

theorem timesOf_cons_of_ne {key key' : JsString} (hne : key' ≠ key) (now : Int) (admitted : List (JsString × Int)) :
    timesOf key' ((key, now) :: admitted) = timesOf key' admitted := by
  unfold timesOf
  rw [List.filter_cons_of_neg (by simpa using Ne.symm hne)]

/-- The call that is admitted counts at the end of the kept list as it does at the head of the log. -/
theorem countAfter_admitted {since now : Int} {key : JsString} {log : List Int} {admitted : List (JsString × Int)}
    (h : countAfter since log = countAfter since (timesOf key admitted)) :
    countAfter since (log ++ [now]) = countAfter since (timesOf key ((key, now) :: admitted)) := by
  unfold timesOf countAfter at h ⊢
  rw [List.filter_cons_of_pos (by simp), List.map_cons, List.countP_append, h, List.countP_cons,
    List.countP_cons, List.countP_nil, Nat.zero_add]

/-- **One call** answers as the reference does, and what is kept goes on agreeing with it. -/
theorem allowWith_spec (cleans : Nat → Bool) (max : Nat) {windowMs : Nat} {clock now : Int} {hits : Hits}
    {admitted : List (JsString × Int)} (h : Agrees windowMs clock hits admitted) (hnow : clock ≤ now)
    (key : JsString) :
    (allowWith cleans max windowMs hits key now).1 = (reference max windowMs admitted key now).1 ∧
      Agrees windowMs now (allowWith cleans max windowMs hits key now).2
        (reference max windowMs admitted key now).2 := by
  have hpast : ∀ call ∈ admitted, call.2 ≤ now := fun call hcall => le_trans (h.past call hcall) hnow
  have hpruned : ∀ since, now - windowMs ≤ since →
      countAfter since ((hits[key]?.getD []).filter fun t => now - windowMs < t) =
        countAfter since (timesOf key admitted) := by
    intro since hsince
    rw [countAfter_filter hsince]
    exact h.counted key since (by omega)
  have hlength : ((hits[key]?.getD []).filter fun t => now - windowMs < t).length =
      countAfter (now - windowMs) (timesOf key admitted) := by
    have hcount := length_filter_eq_countAfter id (now - windowMs) (hits[key]?.getD [])
    rw [List.map_id] at hcount
    rw [← h.counted key _ (by omega)]
    exact hcount
  unfold allowWith SlidingWindowRateLimiter.allow reference
  rw [reference_count hpast key]
  dsimp only
  rw [hlength]
  by_cases hfull : countAfter (now - windowMs) (timesOf key admitted) ≥ max
  · -- Refused: the log of the reference stays, and what is kept lost only times that no window counts.
    rw [if_pos hfull, if_neg (not_lt.mpr hfull)]
    exact ⟨rfl, hpast, fun key' since hsince => counted_insert h hnow hpruned (fun _ _ => rfl) key' hsince⟩
  · -- Admitted: the call comes to both, and a clean-up drops only keys that count nothing.
    rw [if_neg hfull, if_pos (not_le.mp hfull)]
    have hkept : ∀ key' since, now - windowMs ≤ since →
        countAfter since ((hits.insert key
          (((hits[key]?.getD []).filter fun t => now - windowMs < t) ++ [now]))[key']?.getD []) =
          countAfter since (timesOf key' ((key, now) :: admitted)) :=
      fun key' _ => counted_insert h hnow (fun since hsince => countAfter_admitted (hpruned since hsince))
        (fun key' hne => timesOf_cons_of_ne hne now admitted) key'
    refine ⟨rfl, ?_, ?_⟩
    · intro call hcall
      rcases List.mem_cons.mp hcall with rfl | hcall
      · exact le_refl now
      · exact hpast call hcall
    · intro key' since hsince
      dsimp only
      split
      · rw [countAfter_cleaned hsince]
        exact hkept key' since hsince
      · exact hkept key' since hsince

/-- Every sequence of calls in order of time gets the answers of the reference. -/
theorem decisions_eq (cleans : Nat → Bool) (max windowMs : Nat) (calls : List (JsString × Int)) :
    ∀ {clock : Int} {hits : Hits} {admitted : List (JsString × Int)}, Agrees windowMs clock hits admitted →
      (∀ call ∈ calls, clock ≤ call.2) → calls.Pairwise (fun call call' => call.2 ≤ call'.2) →
      decisions (allowWith cleans max windowMs) hits calls =
        decisions (reference max windowMs) admitted calls := by
  induction calls with
  | nil => exact fun _ _ _ => rfl
  | cons call rest ih =>
      intro clock hits admitted h hclock hordered
      obtain ⟨hlater, hordered⟩ := List.pairwise_cons.mp hordered
      obtain ⟨hanswer, hagrees⟩ :=
        allowWith_spec cleans max h (hclock call List.mem_cons_self) call.1
      rw [decisions, decisions, hanswer, ih hagrees hlater hordered]

theorem agrees_empty (windowMs : Nat) (clock : Int) : Agrees windowMs clock ∅ [] :=
  ⟨fun _ h => absurd h List.not_mem_nil, fun key since _ => by simp [timesOf]⟩

/-- **The limiter equals its specification**: whatever keys call, and however often it cleans up, calls in
order of time get the answers of the limiter that keeps every admitted call and never more than `max` of a
key in a window; and so do those at the edge of the signing app. -/
theorem limiter_eq_reference (max windowMs : Nat) {calls : List (JsString × Int)}
    (hordered : calls.Pairwise fun call call' => call.2 ≤ call'.2) :
    decisions (SlidingWindowRateLimiter.allowKey max windowMs) ∅ calls =
        decisions (reference max windowMs) [] calls ∧
      (∀ cleans, decisions (allowWith cleans max windowMs) ∅ calls =
        decisions (SlidingWindowRateLimiter.allowKey max windowMs) ∅ calls) ∧
      decisions allowRequest ∅ calls = decisions (reference MAX_PER_WINDOW WINDOW_MS) [] calls := by
  have hall : ∀ cleans max windowMs, decisions (allowWith cleans max windowMs) ∅ calls =
      decisions (reference max windowMs) [] calls := by
    intro cleans max windowMs
    cases calls with
    | nil => rfl
    | cons call rest =>
        refine decisions_eq cleans max windowMs _ (agrees_empty windowMs call.2) (fun call' hcall' => ?_)
          hordered
        rcases List.mem_cons.mp hcall' with rfl | hrest
        · exact le_refl _
        · exact (List.pairwise_cons.mp hordered).1 call' hrest
  have hkey : SlidingWindowRateLimiter.allowKey max windowMs =
      allowWith (fun size => size > 10000) max windowMs := rfl
  have hedge : allowRequest = allowWith (fun size => size > 10000) MAX_PER_WINDOW WINDOW_MS := rfl
  rw [hkey, hedge]
  exact ⟨hall _ max windowMs, fun cleans => (hall cleans max windowMs).trans (hall _ max windowMs).symm,
    hall _ _ _⟩

/-- Two clients, one of them at its limit until the window has passed. -/
theorem limiter_eq_reference_two_keys :
    decisions (SlidingWindowRateLimiter.allowKey 1 10) ∅
      [(js "a", 0), (js "b", 3), (js "a", 9), (js "a", 10)] = [true, true, false, true] := by
  rw [(limiter_eq_reference 1 10 (by decide)).1]
  decide

/-! ## Late calls

A call reports the time it was begun at, and may be counted when others that report later times have been. -/

theorem Agrees.later {windowMs : Nat} {clock clock' : Int} {hits : Hits} {admitted : List (JsString × Int)}
    (h : Agrees windowMs clock hits admitted) (hclock : clock ≤ clock') :
    Agrees windowMs clock' hits admitted where
  past call hcall := le_trans (h.past call hcall) hclock
  counted key since hsince := h.counted key since (by omega)

/-- **One late call** is admitted only when fewer than `max` calls of its key stand in the window that ends
now, and what is kept goes on agreeing with what was admitted. -/
theorem allowWith_late (cleans : Nat → Bool) (max : Nat) {windowMs : Nat} {clock now : Int} {hits : Hits}
    {admitted : List (JsString × Int)} (h : Agrees windowMs clock hits admitted) (hnow : now ≤ clock)
    (key : JsString) :
    ((allowWith cleans max windowMs hits key now).1 = true →
      countAfter (clock - windowMs) (timesOf key admitted) < max) ∧
    Agrees windowMs clock (allowWith cleans max windowMs hits key now).2
      (if (allowWith cleans max windowMs hits key now).1 then (key, now) :: admitted else admitted) := by
  have hpruned : ∀ since, clock - windowMs ≤ since →
      countAfter since ((hits[key]?.getD []).filter fun t => now - windowMs < t) =
        countAfter since (timesOf key admitted) := by
    intro since hsince
    rw [countAfter_filter (by omega)]
    exact h.counted key since hsince
  have hlength : countAfter (clock - windowMs) (timesOf key admitted) ≤
      ((hits[key]?.getD []).filter fun t => now - windowMs < t).length := by
    rw [← hpruned _ (le_refl _)]
    exact List.countP_le_length
  unfold allowWith SlidingWindowRateLimiter.allow
  dsimp only
  by_cases hfull : ((hits[key]?.getD []).filter fun t => now - windowMs < t).length ≥ max
  · rw [if_pos hfull]
    refine ⟨fun hadmitted => absurd hadmitted (by simp), h.past, fun key' since hsince => ?_⟩
    exact counted_insert h (le_refl clock) hpruned (fun _ _ => rfl) key' hsince
  · rw [if_neg hfull]
    -- What the clean-up drops has left the window of the call, and so the one that ends now.
    have hkept : ∀ key' since, clock - windowMs ≤ since →
        countAfter since ((hits.insert key
          (((hits[key]?.getD []).filter fun t => now - windowMs < t) ++ [now]))[key']?.getD []) =
          countAfter since (timesOf key' ((key, now) :: admitted)) :=
      fun key' _ => counted_insert h (le_refl clock)
        (fun since hsince => countAfter_admitted (hpruned since hsince))
        (fun key' hne => timesOf_cons_of_ne hne now admitted) key'
    refine ⟨fun _ => lt_of_le_of_lt hlength (not_le.mp hfull), ?_, ?_⟩
    · intro call hcall
      rcases List.mem_cons.mp hcall with rfl | hcall
      · exact hnow
      · exact h.past call hcall
    · intro key' since hsince
      dsimp only [if_true]
      split
      · rw [countAfter_cleaned (by omega)]
        exact hkept key' since hsince
      · exact hkept key' since hsince

/-- What a limiter has admitted, each call under a number of its own, where no call was counted more than
`delay` after the time it reported. -/
structure Floor (max windowMs delay : Nat) (clock : Int) (hits : Hits) (log : List (Nat × JsString × Int)) :
    Prop where
  agrees : Agrees windowMs clock hits (log.map Prod.snd)
  roomy : ∀ key, Roomy (windowMs - delay) max (timesOf key (log.map Prod.snd))
  nodup : (log.map Prod.fst).Nodup

section Floor

variable {max windowMs delay : Nat} {clock : Int} {hits : Hits} {log : List (Nat × JsString × Int)}

theorem floor_empty : Floor max windowMs delay clock ∅ [] where
  agrees := agrees_empty windowMs clock
  roomy _ := Roomy.nil
  nodup := List.nodup_nil

theorem Floor.later {clock' : Int} (h : Floor max windowMs delay clock hits log) (hclock : clock ≤ clock') :
    Floor max windowMs delay clock' hits log :=
  ⟨h.agrees.later hclock, h.roomy, h.nodup⟩

/-- One call under a new number, counted in time. -/
theorem Floor.allow (h : Floor max windowMs delay clock hits log) {p : Nat} (hp : p ∉ log.map Prod.fst)
    (key : JsString) {now : Int} (hnow : now ≤ clock) (hdelay : clock ≤ now + delay) {ok : Bool} {hits' : Hits}
    (hallow : SlidingWindowRateLimiter.allowKey max windowMs hits key now = (ok, hits')) :
    Floor max windowMs delay clock hits' (if ok then (p, key, now) :: log else log) := by
  obtain ⟨hroom, hagrees⟩ := allowWith_late (fun size => size > 10000) max h.agrees hnow key
  rw [SlidingWindowRateLimiter.allowKey] at hallow
  rw [hallow] at hroom hagrees
  cases ok with
  | false => exact ⟨hagrees, h.roomy, h.nodup⟩
  | true =>
      refine ⟨hagrees, fun key' => ?_, List.nodup_cons.mpr ⟨hp, h.nodup⟩⟩
      rw [if_pos rfl, List.map_cons]
      by_cases hkey : key' = key
      · subst hkey
        have hcons : timesOf key' ((key', now) :: log.map Prod.snd) = now :: timesOf key' (log.map Prod.snd) := by
          rw [timesOf, List.filter_cons_of_pos (by simp), List.map_cons, ← timesOf]
        rw [hcons]
        refine Roomy.cons (h.roomy key') (lt_of_le_of_lt ?_ (hroom rfl))
        exact countAfter_anti (by omega) _
      · rw [timesOf_cons_of_ne hkey]
        exact h.roomy key'

/-- **Calls under different numbers with one key and times in one window, `delay` shorter than the
limiter's, are no more than `max`.** -/
theorem Floor.length_le (h : Floor max windowMs delay clock hits log) {ps : List Nat} (hps : ps.Nodup)
    (key : JsString) (a : Int)
    (hin : ∀ p ∈ ps, ∃ t, (p, key, t) ∈ log ∧ a < t ∧ t ≤ a + (windowMs - delay)) : ps.length ≤ max := by
  let inWindow (call : Nat × JsString × Int) : Bool :=
    call.2.1 == key && decide (a < call.2.2 ∧ call.2.2 ≤ a + (windowMs - delay))
  have hsub : ps ⊆ (log.filter inWindow).map Prod.fst := by
    intro p hp
    obtain ⟨t, hmem, hopen, hclose⟩ := hin p hp
    exact List.mem_map.mpr ⟨(p, key, t), List.mem_filter.mpr ⟨hmem, by simp [inWindow, hopen, hclose]⟩, rfl⟩
  have hcount : (log.filter inWindow).length =
      countIn a (windowMs - delay) (timesOf key (log.map Prod.snd)) := by
    unfold countIn timesOf
    rw [List.countP_map, List.countP_filter, List.countP_map, List.countP_eq_length_filter]
    congr 1
    refine List.filter_congr fun call _ => ?_
    simp only [inWindow, Function.comp_apply]
    exact Bool.and_comm _ _
  calc ps.length ≤ ((log.filter inWindow).map Prod.fst).length := (hps.subperm hsub).length_le
    _ = countIn a (windowMs - delay) (timesOf key (log.map Prod.snd)) := by rw [List.length_map, hcount]
    _ ≤ max := (h.roomy key).countIn_le a

end Floor

end ESignSoft.Operations
