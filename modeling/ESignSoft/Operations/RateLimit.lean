import ESignSoft.Lib.Interleaving
import ESignSoft.Lib.JsNumber
import ESignSoft.Lib.SlidingWindow

/-!
# The shared rate limit

A request is let through by the limiter of the instance that serves it and by a window all instances
share in Redis: a sorted set for each key, pruned, counted and added to by one script.  What the script
adds is named by the time the caller reports and a number the instance counts up.

* `shared_cap` — no window holds more than `max` admitted calls, over every interleaving in which the
  name is new whenever the script admits, and scripts of a key run in the order of the times their calls
  report;
* `colliding_members` — three calls admitted under a cap of two: two instances count alike.
-/

namespace ESignSoft.Operations

open ESignSoft.Lib.JsText ESignSoft.Lib.JsNumber ESignSoft.Lib.Interleaving ESignSoft.Lib.SlidingWindow

structure RateLimitConfig where
  max : Nat
  windowMs : Nat
  /-- The floor in each instance. -/
  localMax : Nat
  localWindowMs : Nat
  /-- Which instance serves a call. -/
  instanceOf : Nat → Nat
  /-- How the script's `..` writes a number. -/
  luaNumber : Int → JsString

/-! ## The in-process floor -/

/-- `SlidingWindowRateLimiter.allow`, on what is kept under the key.  Keys with nothing left in their
window are cleaned up now and then, which changes no answer. -/
def SlidingWindowRateLimiter.allow (max windowMs : Nat) (hits : List Int) (now : Int) : Bool × List Int :=
  let recent := hits.filter fun t => now - windowMs < t
  if recent.length ≥ max then (false, recent) else (true, recent ++ [now])

/-! ## The script -/

structure Entry where
  score : Int
  member : JsString
  deriving DecidableEq

/-- A sorted set under a key, newest first, and when Redis lets the key go. -/
structure SortedSet where
  entries : List Entry
  expireAt : Option Int

def SortedSet.empty : SortedSet := ⟨[], none⟩

/-- What is there at a time of the server's clock. -/
def SortedSet.read (z : SortedSet) (clock : Int) : List Entry :=
  if z.expireAt.any fun x => x ≤ clock then [] else z.entries

/-- `PEXPIRE`; a set without entries is no key. -/
def SortedSet.pexpire (entries : List Entry) (at_ : Int) : SortedSet :=
  ⟨entries, if entries = [] then none else some at_⟩

/-- `ZADD`: a member that is there keeps its place in the set and gets the score. -/
def zadd (score : Int) (member : JsString) (entries : List Entry) : List Entry :=
  ⟨score, member⟩ :: entries.filter fun e => e.member != member

/-- `ZREMRANGEBYSCORE key -inf (now - window)`. -/
def prune (now : Int) (windowMs : Nat) (entries : List Entry) : List Entry :=
  entries.filter fun e => now - windowMs < e.score

def WINDOW_SCRIPT (cfg : RateLimitConfig) (clock now : Int) (member : JsString) (z : SortedSet) :
    Bool × SortedSet :=
  let kept := prune now cfg.windowMs (z.read clock)
  if kept.length ≥ cfg.max then (false, .pexpire kept (clock + cfg.windowMs))
  else (true, .pexpire (zadd now member kept) (clock + cfg.windowMs))

/-- `now .. '-' .. ARGV[4]`. -/
def memberName (cfg : RateLimitConfig) (now : Int) (seq : Nat) : JsString :=
  cfg.luaNumber now ++ js "-" ++ natText seq

/-! ## Calls -/

structure Shared where
  clock : Int
  /-- Of each instance. -/
  seq : Nat → Nat
  hits : Nat → JsString → List Int
  zsets : JsString → SortedSet
  /-- The calls answered with `true`, newest first: their keys and the times they reported. -/
  admitted : List (JsString × Int)

inductive CallState
  | idle
  /-- `await this.client()`. -/
  | connecting (key : JsString) (now : Int)
  /-- `await withTimeout(redis.eval(…))`. -/
  | evaluating (key : JsString) (now : Int) (seq : Nat)

inductive Choice
  | call (key : JsString)
  | next
  /-- There is no shared view: no client, an error, or no answer in time to a script that has not run. -/
  | unreachable
  /-- The script runs and its answer comes too late. -/
  | late

/-- The surroundings: time passes. -/
inductive Outside
  | tick (ms : Nat)

def letThrough (key : JsString) (now : Int) (s : Shared) : Shared :=
  { s with admitted := (key, now) :: s.admitted }

def evaluate (cfg : RateLimitConfig) (key : JsString) (now : Int) (seq : Nat) (s : Shared) : Bool × Shared :=
  let answer := WINDOW_SCRIPT cfg s.clock now (memberName cfg now seq) (s.zsets key)
  (answer.1, { s with zsets := Function.update s.zsets key answer.2 })

def actCall (cfg : RateLimitConfig) (p : Nat) : Choice → Shared → CallState → Option (Shared × CallState)
  | .call key, s, .idle =>
      let i := cfg.instanceOf p
      let answer := SlidingWindowRateLimiter.allow cfg.localMax cfg.localWindowMs (s.hits i key) s.clock
      let s := { s with hits := Function.update s.hits i (Function.update (s.hits i) key answer.2) }
      some (s, if answer.1 then .connecting key s.clock else .idle)
  | .next, s, .connecting key now =>
      let i := cfg.instanceOf p
      let seq := (s.seq i + 1) % 1000000
      some ({ s with seq := Function.update s.seq i seq }, .evaluating key now seq)
  | .unreachable, s, .connecting key now => some (letThrough key now s, .idle)
  | .next, s, .evaluating key now seq =>
      let answer := evaluate cfg key now seq s
      some (if answer.1 then letThrough key now answer.2 else answer.2, .idle)
  | .unreachable, s, .evaluating key now _ => some (letThrough key now s, .idle)
  | .late, s, .evaluating key now seq => some (letThrough key now (evaluate cfg key now seq s).2, .idle)
  | _, _, _ => none

def rateLimit (cfg : RateLimitConfig) : Program Shared CallState Choice Outside where
  act := actCall cfg
  env
    | .tick ms, s => some { s with clock := s.clock + ms }

/-- No instance has counted, and Redis holds nothing. -/
def fresh (clock : Int) : System Shared CallState where
  shared := ⟨clock, fun _ => 0, fun _ _ => [], fun _ => .empty, []⟩
  procs _ := .idle

/-! ## Conditions on a run -/

/-- The call a process is in the middle of. -/
def pending : CallState → Option (JsString × Int)
  | .idle => none
  | .connecting key now => some (key, now)
  | .evaluating key now _ => some (key, now)

/-- Redis answers. -/
def Reachable : Label Choice Outside → Prop
  | .proc _ .unreachable | .proc _ .late => False
  | _ => True

/-- A script runs before those of calls on its key that report a later time, and a key that Redis has let
go is out of the window of the time reported too. -/
def InOrder (s : System Shared CallState) : Label Choice Outside → Prop
  | .proc p .next =>
      ∀ key now seq, s.procs p = .evaluating key now seq →
        (∀ q now', pending (s.procs q) = some (key, now') → now ≤ now') ∧
          ∀ x, (s.shared.zsets key).expireAt = some x → x ≤ s.shared.clock → x ≤ now
  | _ => True

/-- A script that admits a call adds a member the set does not have. -/
def NewMember (cfg : RateLimitConfig) (s : System Shared CallState) : Label Choice Outside → Prop
  | .proc p .next =>
      ∀ key now seq, s.procs p = .evaluating key now seq →
        (WINDOW_SCRIPT cfg s.shared.clock now (memberName cfg now seq) (s.shared.zsets key)).1 = true →
          ∀ e ∈ prune now cfg.windowMs ((s.shared.zsets key).read s.shared.clock),
            e.member ≠ memberName cfg now seq
  | _ => True

/-- How many calls on a key were admitted in the window of length `windowMs` that opens after `a`. -/
def admittedIn (cfg : RateLimitConfig) (s : Shared) (key : JsString) (a : Int) : Nat :=
  s.admitted.countP fun call => call.1 == key && decide (a < call.2 ∧ call.2 ≤ a + cfg.windowMs)

/-! ## What one script does -/

/-- The times at which calls on a key were admitted, newest first. -/
def times (s : Shared) (key : JsString) : List Int :=
  (s.admitted.filter fun call => call.1 == key).map Prod.snd

theorem admittedIn_eq (cfg : RateLimitConfig) (s : Shared) (key : JsString) (a : Int) :
    admittedIn cfg s key a = countIn a cfg.windowMs (times s key) := by
  unfold admittedIn countIn times
  rw [List.countP_map, List.countP_filter]
  refine List.countP_congr fun call _ => ?_
  simp [and_comm]

/-- The times under which a key's entries stand. -/
def scores (entries : List Entry) : List Int := entries.map Entry.score

/-- What the set of a key knows as of a time: every admitted call in the window that ends there. -/
structure Covered (cfg : RateLimitConfig) (s : Shared) (key : JsString) (now : Int) : Prop where
  order : ∀ t ∈ times s key, t ≤ now
  counted : countAfter (now - cfg.windowMs) (times s key) ≤
    countAfter (now - cfg.windowMs) (scores (s.zsets key).entries)

/-- A set as the scripts leave it: no entry is from the future, or outlives its key. -/
structure SetOk (cfg : RateLimitConfig) (clock : Int) (z : SortedSet) : Prop where
  past : ∀ e ∈ z.entries, e.score ≤ clock
  outlived : ∀ e ∈ z.entries, ∀ x, z.expireAt = some x → e.score + cfg.windowMs ≤ x

/-- What is kept for a time the key has not been let go too early for. -/
theorem prune_read {cfg : RateLimitConfig} {clock now : Int} {z : SortedSet} (hz : SetOk cfg clock z)
    (hexpired : ∀ x, z.expireAt = some x → x ≤ clock → x ≤ now) :
    prune now cfg.windowMs (z.read clock) = prune now cfg.windowMs z.entries := by
  unfold SortedSet.read
  cases hx : z.expireAt with
  | none => rfl
  | some x =>
      by_cases hgone : x ≤ clock
      · -- The key is gone, and everything in it was out of the window already.
        have hempty : prune now cfg.windowMs z.entries = [] := by
          unfold prune
          rw [List.filter_eq_nil_iff]
          intro e he
          have hscore := hz.outlived e he x hx
          have hnow := hexpired x hx hgone
          rw [decide_eq_true_eq]
          omega
        rw [if_pos (by simpa using hgone), hempty]
        rfl
      · rw [if_neg (by simpa using hgone)]

theorem pexpire_setOk {cfg : RateLimitConfig} {clock : Int} {entries : List Entry}
    (hpast : ∀ e ∈ entries, e.score ≤ clock) :
    SetOk cfg clock (SortedSet.pexpire entries (clock + cfg.windowMs)) := by
  refine ⟨hpast, fun e he x hx => ?_⟩
  have hscore := hpast e he
  unfold SortedSet.pexpire at hx
  dsimp only at hx
  split at hx
  · cases hx
  · cases hx
    omega

/-- A new member is one more entry. -/
theorem zadd_of_new (score : Int) {member : JsString} {entries : List Entry}
    (hnew : ∀ e ∈ entries, e.member ≠ member) : zadd score member entries = ⟨score, member⟩ :: entries := by
  unfold zadd
  rw [List.filter_eq_self.mpr fun e he => by simpa using hnew e he]

/-- **One script**, run in order and adding a new member where it admits: it admits only below the cap,
and the set goes on knowing every window that ends no earlier. -/
theorem windowScript_spec {cfg : RateLimitConfig} {clock now : Int} {member : JsString} {z : SortedSet}
    (hz : SetOk cfg clock z) (hnow : now ≤ clock)
    (hexpired : ∀ x, z.expireAt = some x → x ≤ clock → x ≤ now)
    (hnew : (WINDOW_SCRIPT cfg clock now member z).1 = true →
      ∀ e ∈ prune now cfg.windowMs (z.read clock), e.member ≠ member) :
    SetOk cfg clock (WINDOW_SCRIPT cfg clock now member z).2 ∧
      ((WINDOW_SCRIPT cfg clock now member z).1 = true →
        countAfter (now - cfg.windowMs) (scores z.entries) < cfg.max) ∧
      ∀ since, now - cfg.windowMs ≤ since →
        countAfter since (scores (WINDOW_SCRIPT cfg clock now member z).2.entries) =
          countAfter since (if (WINDOW_SCRIPT cfg clock now member z).1 then now :: scores z.entries
            else scores z.entries) := by
  have hkept := prune_read hz hexpired
  have hpast : ∀ e ∈ prune now cfg.windowMs z.entries, e.score ≤ clock := fun e he =>
    hz.past e (List.mem_filter.mp he).1
  have hcount : ∀ since, now - cfg.windowMs ≤ since →
      countAfter since (scores (prune now cfg.windowMs z.entries)) = countAfter since (scores z.entries) :=
    fun since hsince => countAfter_map_filter hsince z.entries
  unfold WINDOW_SCRIPT at hnew ⊢
  dsimp only at hnew ⊢
  rw [hkept] at hnew ⊢
  by_cases hfull : (prune now cfg.windowMs z.entries).length ≥ cfg.max
  · -- Full: what was pruned had left every window that ends now or later.
    rw [if_pos hfull]
    exact ⟨pexpire_setOk hpast, by simp, by simpa [SortedSet.pexpire] using hcount⟩
  · -- Admitted: a new member overwrites no entry, so that the set grows by this call.
    rw [if_neg hfull] at hnew ⊢
    have hadded := zadd_of_new now (hnew rfl)
    refine ⟨pexpire_setOk ?_, fun _ => ?_, fun since hsince => ?_⟩
    · rw [hadded]
      intro e he
      rcases List.mem_cons.mp he with rfl | he
      · exact hnow
      · exact hpast e he
    · rw [scores, ← length_filter_eq_countAfter Entry.score]
      exact not_le.mp hfull
    · have hrest := hcount since hsince
      simp only [SortedSet.pexpire, hadded, if_true]
      unfold scores countAfter at hrest ⊢
      rw [List.map_cons, List.countP_cons, List.countP_cons, hrest]

/-! ## Every interleaving -/

/-- The shared window and what was admitted, between steps. -/
structure WindowOk (cfg : RateLimitConfig) (s : Shared) : Prop where
  sets : ∀ key, SetOk cfg s.clock (s.zsets key)
  capped : ∀ key, Capped cfg.windowMs cfg.max (times s key)
  covered : ∀ key now, s.clock ≤ now → Covered cfg s key now

/-- A call under way reports a time that has come, and that the set of its key knows about. -/
def CallOk (cfg : RateLimitConfig) (s : Shared) (l : CallState) : Prop :=
  ∀ key now, pending l = some (key, now) → now ≤ s.clock ∧ Covered cfg s key now

/-- Redis answers, in order and with new members. -/
def Kept (cfg : RateLimitConfig) (s : System Shared CallState) (l : Label Choice Outside) : Prop :=
  Reachable l ∧ InOrder s l ∧ NewMember cfg s l

/-- Nothing the window is about differs. -/
structure SameWindow (s s' : Shared) : Prop where
  clock : s'.clock = s.clock
  zsets : s'.zsets = s.zsets
  admitted : s'.admitted = s.admitted

theorem SameWindow.covered {cfg : RateLimitConfig} {s s' : Shared} (h : SameWindow s s') {key : JsString}
    {now : Int} (hs : Covered cfg s key now) : Covered cfg s' key now := by
  obtain ⟨horder, hcounted⟩ := hs
  refine ⟨?_, ?_⟩
  · rw [times, h.admitted]
    exact horder
  · rw [times, h.admitted, h.zsets]
    exact hcounted

theorem SameWindow.windowOk {cfg : RateLimitConfig} {s s' : Shared} (h : SameWindow s s')
    (hs : WindowOk cfg s) : WindowOk cfg s' := by
  refine ⟨fun key => ?_, fun key => ?_, fun key now hnow => ?_⟩
  · rw [h.clock, h.zsets]
    exact hs.sets key
  · rw [times, h.admitted]
    exact hs.capped key
  · rw [h.clock] at hnow
    exact h.covered (hs.covered key now hnow)

theorem SameWindow.callOk {cfg : RateLimitConfig} {s s' : Shared} (h : SameWindow s s') {l : CallState}
    (hl : CallOk cfg s l) : CallOk cfg s' l := by
  intro key now hpending
  obtain ⟨hnow, hcovered⟩ := hl key now hpending
  exact ⟨h.clock ▸ hnow, h.covered hcovered⟩

/-- The state after the script of a call has been answered. -/
def evaluated (cfg : RateLimitConfig) (key : JsString) (now : Int) (seq : Nat) (s : Shared) : Shared :=
  let answer := evaluate cfg key now seq s
  if answer.1 then letThrough key now answer.2 else answer.2

/-- What a call does while Redis answers. -/
theorem act_cases {cfg : RateLimitConfig} {p : Nat} {c : Choice} {s s' : Shared} {l l' : CallState}
    (hreachable : Reachable (.proc p c)) (h : actCall cfg p c s l = some (s', l')) :
    (SameWindow s s' ∧ ∀ key now, pending l' = some (key, now) →
        pending l = some (key, now) ∨ now = s.clock) ∨
      ∃ key now seq, c = .next ∧ l = .evaluating key now seq ∧ s' = evaluated cfg key now seq s ∧
        l' = .idle := by
  cases c with
  | call key =>
      cases l with
      | idle =>
          left
          obtain ⟨rfl, rfl⟩ := Prod.mk.inj (Option.some.inj h)
          refine ⟨⟨rfl, rfl, rfl⟩, fun key' now hpending => Or.inr ?_⟩
          split at hpending
          · cases hpending
            rfl
          · cases hpending
      | connecting key' now => cases h
      | evaluating key' now seq => cases h
  | next =>
      cases l with
      | idle => cases h
      | connecting key now =>
          left
          obtain ⟨rfl, rfl⟩ := Prod.mk.inj (Option.some.inj h)
          exact ⟨⟨rfl, rfl, rfl⟩, fun key' now' hpending => Or.inl hpending⟩
      | evaluating key now seq =>
          right
          obtain ⟨rfl, rfl⟩ := Prod.mk.inj (Option.some.inj h)
          exact ⟨key, now, seq, rfl, rfl, rfl, rfl⟩
  | unreachable => exact hreachable.elim
  | late => exact hreachable.elim

section Script

variable {cfg : RateLimitConfig} {s : Shared} {key : JsString} {now : Int} {seq : Nat}

/-- Whether the script admits the call. -/
def admits (cfg : RateLimitConfig) (key : JsString) (now : Int) (seq : Nat) (s : Shared) : Bool :=
  (WINDOW_SCRIPT cfg s.clock now (memberName cfg now seq) (s.zsets key)).1

@[simp] theorem evaluated_clock : (evaluated cfg key now seq s).clock = s.clock := by
  unfold evaluated evaluate letThrough
  dsimp only
  split <;> rfl

theorem evaluated_zsets : (evaluated cfg key now seq s).zsets = Function.update s.zsets key
    (WINDOW_SCRIPT cfg s.clock now (memberName cfg now seq) (s.zsets key)).2 := by
  unfold evaluated evaluate letThrough
  dsimp only
  split <;> rfl

theorem times_evaluated (k : JsString) : times (evaluated cfg key now seq s) k =
    if key = k ∧ admits cfg key now seq s = true then now :: times s k else times s k := by
  unfold evaluated evaluate letThrough admits times
  dsimp only
  by_cases hadmits : (WINDOW_SCRIPT cfg s.clock now (memberName cfg now seq) (s.zsets key)).1 = true
  · rw [if_pos hadmits]
    by_cases hkey : key = k
    · subst hkey
      simp [hadmits]
    · simp [hkey]
  · simp [hadmits]

variable (hset : SetOk cfg s.clock (s.zsets key)) (hnow : now ≤ s.clock)
variable (hexpired : ∀ x, (s.zsets key).expireAt = some x → x ≤ s.clock → x ≤ now)
variable (hnew : admits cfg key now seq s = true →
  ∀ e ∈ prune now cfg.windowMs ((s.zsets key).read s.clock), e.member ≠ memberName cfg now seq)

include hset hnow hexpired hnew

/-- What a set knows about a time, it knows after the script of an earlier one. -/
theorem covered_evaluated {k : JsString} {now' : Int} (hcovered : Covered cfg s k now')
    (hlater : key = k → now ≤ now') : Covered cfg (evaluated cfg key now seq s) k now' := by
  by_cases hkey : key = k
  · obtain ⟨-, -, hcounts⟩ := windowScript_spec hset hnow hexpired hnew
    subst hkey
    have hsince := hcounts (now' - cfg.windowMs) (by have := hlater rfl; omega)
    have hsame : admits cfg key now seq s =
      (WINDOW_SCRIPT cfg s.clock now (memberName cfg now seq) (s.zsets key)).1 := rfl
    rw [← hsame] at hsince
    refine ⟨?_, ?_⟩
    · rw [times_evaluated]
      intro t ht
      split at ht
      · rcases List.mem_cons.mp ht with rfl | ht
        · exact hlater rfl
        · exact hcovered.order t ht
      · exact hcovered.order t ht
    · rw [times_evaluated, evaluated_zsets, Function.update_self, hsince]
      have hcounted := hcovered.counted
      by_cases hadmits : admits cfg key now seq s = true
      · rw [if_pos ⟨rfl, hadmits⟩, if_pos hadmits]
        unfold countAfter at hcounted ⊢
        rw [List.countP_cons, List.countP_cons]
        omega
      · rw [if_neg fun h => hadmits h.2, if_neg hadmits]
        exact hcounted
  · refine ⟨?_, ?_⟩
    · rw [times_evaluated, if_neg fun h => hkey h.1]
      exact hcovered.order
    · rw [times_evaluated, if_neg fun h => hkey h.1, evaluated_zsets,
        Function.update_of_ne fun h => hkey h.symm]
      exact hcovered.counted

theorem windowOk_evaluated (hs : WindowOk cfg s) (hcovered : Covered cfg s key now) :
    WindowOk cfg (evaluated cfg key now seq s) := by
  obtain ⟨hset', hroom, -⟩ := windowScript_spec hset hnow hexpired hnew
  refine ⟨fun k => ?_, fun k => ?_, fun k now' hlater => ?_⟩
  · rw [evaluated_clock, evaluated_zsets]
    by_cases hkey : key = k
    · subst hkey
      rw [Function.update_self]
      exact hset'
    · rw [Function.update_of_ne fun h => hkey h.symm]
      exact hs.sets k
  · rw [times_evaluated]
    split
    · rename_i hadmits
      obtain ⟨rfl, hadmits⟩ := hadmits
      exact .cons (hs.capped key) hcovered.order (lt_of_le_of_lt hcovered.counted (hroom hadmits))
    · exact hs.capped k
  · rw [evaluated_clock] at hlater
    exact covered_evaluated hset hnow hexpired hnew (hs.covered k now' hlater)
      fun _ => le_trans hnow hlater

end Script

/-- **Every step keeps the window**, where Redis answers, in order and with new members. -/
theorem rateLimit_outline (cfg : RateLimitConfig) :
    ProofOutline (rateLimit cfg) (Kept cfg) (WindowOk cfg) (fun s _ l => CallOk cfg s l)
      (fun _ _ => True) where
  act s p c sh l hs hok hact := by
    obtain ⟨hreachable, horder, hnew⟩ := hok
    rcases act_cases hreachable hact with ⟨hsame, hpending⟩ | ⟨key, now, seq, rfl, hl, rfl, rfl⟩
    · refine ⟨hsame.windowOk hs.shared, ?_, fun q _ => hsame.callOk (hs.proc q), fun _ _ => ⟨trivial, trivial⟩⟩
      intro key now hcall
      rcases hpending key now hcall with hold | rfl
      · exact hsame.callOk (hs.proc p) key now hold
      · exact ⟨le_of_eq hsame.clock.symm, hsame.covered (hs.shared.covered key _ (le_refl _))⟩
    · obtain ⟨hnow, hcovered⟩ := hs.proc p key now (by rw [hl]; rfl)
      obtain ⟨hfirst, hexpired⟩ := horder key now seq hl
      have hmember := hnew key now seq hl
      have hset := hs.shared.sets key
      refine ⟨windowOk_evaluated hset hnow hexpired hmember hs.shared hcovered, ?_, fun q _ => ?_,
        fun _ _ => ⟨trivial, trivial⟩⟩
      · intro key' now' hcall
        cases hcall
      · intro key' now' hcall
        obtain ⟨hnow', hcovered'⟩ := hs.proc q key' now' hcall
        -- Scripts run in order: another call on the key reports no earlier time than this one.
        refine ⟨by rw [evaluated_clock]; exact hnow', ?_⟩
        refine covered_evaluated hset hnow hexpired hmember hcovered' fun hkey => ?_
        subst hkey
        exact hfirst q now' hcall
  env s e sh hs _ henv := by
    cases e with
    | tick ms =>
        obtain rfl := Option.some.inj henv
        -- Time passes: no set and no log changes, and a time that has come stays one.
        refine ⟨⟨fun key => ?_, hs.shared.capped, fun key now hnow => ?_⟩, fun q key now hcall => ?_⟩
        · obtain ⟨hpast, houtlived⟩ := hs.shared.sets key
          refine ⟨fun e he => ?_, houtlived⟩
          have hscore := hpast e he
          dsimp only
          omega
        · have hlater : s.shared.clock ≤ now := by
            dsimp only at hnow
            omega
          obtain ⟨horder, hcounted⟩ := hs.shared.covered key now hlater
          exact ⟨horder, hcounted⟩
        · obtain ⟨hnow, horder, hcounted⟩ := hs.proc q key now hcall
          refine ⟨?_, horder, hcounted⟩
          dsimp only
          omega

theorem fresh_holds (cfg : RateLimitConfig) (clock : Int) :
    Holds (WindowOk cfg) (fun s _ l => CallOk cfg s l) (fun _ _ => True) (fresh clock) where
  shared := by
    refine ⟨fun key => ⟨by simp [fresh, SortedSet.empty], by simp [fresh, SortedSet.empty]⟩,
      fun key => .nil, fun key now _ => ⟨by simp [fresh, times], by simp [fresh, times, countAfter]⟩⟩
  proc _ := by
    intro key now hcall
    cases hcall
  pair _ _ _ := trivial

/-- **The cap is global**, over every interleaving in which scripts run in order and admit under new
names. -/
theorem shared_cap (cfg : RateLimitConfig) (clock : Int) {s : System Shared CallState}
    (h : Reaches (rateLimit cfg) (Kept cfg) (fresh clock) s) (key : JsString) (a : Int) :
    admittedIn cfg s.shared key a ≤ cfg.max := by
  rw [admittedIn_eq]
  exact (((rateLimit_outline cfg).holds_of_reaches h (fresh_holds cfg clock)).shared.capped key).countIn_le a

/-! ## Two instances that count alike -/

/-- Two instances, and a cap of two a minute. -/
def exampleLimit : RateLimitConfig where
  max := 2
  windowMs := 60000
  localMax := 2
  localWindowMs := 60000
  instanceOf p := p
  luaNumber := intText

/-- A call from its start to its answer. -/
def exampleAllow (p : Nat) : List (Label Choice Outside) :=
  [.proc p (.call (js "203.0.113.9")), .proc p .next, .proc p .next]

def atRest : CallState → Bool
  | .idle => true
  | _ => false

/-- A step of a replay: answered, before Redis lets the key go, and under a new name where that is asked
for. -/
def replayCheck (named : Bool) (s : System Shared CallState) : Label Choice Outside → Bool
  | .proc _ .unreachable | .proc _ .late => false
  | .proc p .next =>
      match s.procs p with
      | .evaluating key now seq =>
          ((s.shared.zsets key).expireAt.all fun x => s.shared.clock < x) &&
            (!named || (prune now exampleLimit.windowMs ((s.shared.zsets key).read s.shared.clock)).all
              fun e => e.member != memberName exampleLimit now seq)
      | _ => true
  | _ => true

theorem kept_of_replayCheck {named : Bool} {s : System Shared CallState} {l : Label Choice Outside}
    (hcheck : replayCheck named s l = true) (halone : Alone (fun l => atRest l = true) s l) :
    Reachable l ∧ InOrder s l ∧ (named = true → NewMember exampleLimit s l) := by
  cases l with
  | env e => exact ⟨trivial, trivial, fun _ => trivial⟩
  | proc p c =>
      cases c with
      | call key => exact ⟨trivial, trivial, fun _ => trivial⟩
      | unreachable => cases hcheck
      | late => cases hcheck
      | next =>
          have hsteps : ∀ key now seq, s.procs p = .evaluating key now seq →
              ((s.shared.zsets key).expireAt.all fun x => s.shared.clock < x) = true ∧
                (named = true → ((prune now exampleLimit.windowMs
                  ((s.shared.zsets key).read s.shared.clock)).all
                    fun e => e.member != memberName exampleLimit now seq) = true) := by
            intro key now seq hl
            simp only [replayCheck, hl, Bool.and_eq_true, Bool.or_eq_true, Bool.not_eq_true'] at hcheck
            exact ⟨hcheck.1, fun hnamed => hcheck.2.resolve_left (by simp [hnamed])⟩
          refine ⟨trivial, fun key now seq hl => ⟨fun q now' hpending => ?_, fun x hx hgone => ?_⟩,
            fun hnamed key now seq hl _ e he => ?_⟩
          · -- Every other call is at rest, so that this one is the only one under way.
            by_cases hq : q = p
            · rw [hq, hl] at hpending
              cases hpending
              exact le_refl _
            · have hrest := halone q hq
              cases hother : s.procs q with
              | idle =>
                  rw [hother] at hpending
                  cases hpending
              | connecting key' now' =>
                  rw [hother] at hrest
                  cases hrest
              | evaluating key' now' seq' =>
                  rw [hother] at hrest
                  cases hrest
          · have hlater := (hsteps key now seq hl).1
            rw [hx] at hlater
            simp only [Option.all_some, decide_eq_true_eq] at hlater
            omega
          · simpa using List.all_eq_true.mp ((hsteps key now seq hl).2 hnamed) e he

/-- A replay of calls one after the other is a run. -/
theorem reaches_of_replay {named : Bool} {ls : List (Label Choice Outside)} {clock : Int}
    {s : System Shared CallState}
    (h : (rateLimit exampleLimit).runIf (fun s l => replayCheck named s l && aloneBelow atRest 2 s l)
      (fresh clock) ls = some s) :
    Reaches (rateLimit exampleLimit)
      (fun s l => Reachable l ∧ InOrder s l ∧ (named = true → NewMember exampleLimit s l))
      (fresh clock) s := by
  have hchecked := (Reaches.of_runIf h).mono fun _ _ hcheck => Bool.and_eq_true_iff.mp hcheck
  have halone := Reaches.alone hchecked fun _ _ => rfl
  exact halone.mono fun _ _ hok => kept_of_replayCheck hok.1 hok.2

/-- One instance, one call after the other. -/
theorem shared_cap_one_instance :
    ∃ s, (rateLimit exampleLimit).runIf (fun s l => replayCheck true s l && aloneBelow atRest 2 s l)
        (fresh 1786000000000) (exampleAllow 0 ++ exampleAllow 0) = some s ∧
      admittedIn exampleLimit s.shared (js "203.0.113.9") 1785999999999 ≤ exampleLimit.max := by
  obtain ⟨s, hs⟩ := Option.isSome_iff_exists.mp (by decide +kernel :
    ((rateLimit exampleLimit).runIf (fun s l => replayCheck true s l && aloneBelow atRest 2 s l)
      (fresh 1786000000000) (exampleAllow 0 ++ exampleAllow 0)).isSome = true)
  have hrun := (reaches_of_replay hs).mono fun _ _ hok => (⟨hok.1, hok.2.1, hok.2.2 rfl⟩ : Kept _ _ _)
  exact ⟨s, hs, shared_cap exampleLimit 1786000000000 hrun _ _⟩

/-- Two instances count their first call alike: the second of them is admitted without being counted, and
a third call within the same millisecond is admitted under a cap of two. -/
theorem colliding_members :
    ¬ ∀ (cfg : RateLimitConfig) (clock : Int) (s : System Shared CallState),
      Reaches (rateLimit cfg) (fun s l => Reachable l ∧ InOrder s l) (fresh clock) s →
        ∀ (key : JsString) (a : Int), admittedIn cfg s.shared key a ≤ cfg.max := by
  intro h
  have hover : ((rateLimit exampleLimit).runIf
      (fun s l => replayCheck false s l && aloneBelow atRest 2 s l) (fresh 1786000000000)
        (exampleAllow 0 ++ exampleAllow 1 ++ exampleAllow 0)).any
          (fun s => exampleLimit.max <
            admittedIn exampleLimit s.shared (js "203.0.113.9") 1785999999999) = true := by
    decide +kernel
  obtain ⟨s, hs, hmore⟩ := (Option.any_eq_true _ _).mp hover
  have hrun := (reaches_of_replay hs).mono fun _ _ hok => And.intro hok.1 hok.2.1
  have hcap := h exampleLimit 1786000000000 s hrun (js "203.0.113.9") 1785999999999
  rw [decide_eq_true_eq] at hmore
  omega

end ESignSoft.Operations
