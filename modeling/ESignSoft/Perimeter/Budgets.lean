import ESignSoft.Perimeter.PolicyGuard

/-!
# The budgets of the public surfaces

On a public surface the guard counts a request twice: under the address of its connection when it comes, and
under the visitor a front end vouches for when Redis has answered the first count.  The second count still
reports the time the request came at, so requests are counted in it out of their order.

* `Counted` — what the floors have admitted so far, and which requests under way it stands for;
* `budgets_kept` — whatever Redis says and whatever headers come, no minute lets more than 6000 requests of a
  connection in, and no minute less the longest wait for Redis more than 60 or 20 of a visitor.
-/

namespace ESignSoft.Perimeter

open ESignSoft.Lib.JsText ESignSoft.Lib.Interleaving ESignSoft.Operations

/-- No request waits longer than `delay` between its two counts. -/
def Prompt (delay : Nat) (s : System GuardShared GuardState) : Label GuardChoice Outside → Prop
  | .proc p (.verdict true) =>
      ∀ surface req handler now, s.procs p = .askedSource surface req handler now → s.shared.clock ≤ now + delay
  | _ => True

/-- A request the connection's budget had room for. -/
def GuardState.pastSource : GuardState → Option (Surface × ApiRequest × Int)
  | .askedSource surface req _ now => some (surface, req, now)
  | .askedClient surface req _ now => some (surface, req, now)
  | .letIn req _ now (.surface surface) => some (surface, req, now)
  | _ => none

/-- A request the visitor's budget had room for, if it has a visitor. -/
def GuardState.pastClient : GuardState → Option (Surface × ApiRequest × Int)
  | .askedClient surface req _ now => some (surface, req, now)
  | .letIn req _ now (.surface surface) => some (surface, req, now)
  | _ => none

/-- The request has not been counted under a visitor. -/
def GuardState.uncounted : GuardState → Bool
  | .waiting | .askedSource _ _ _ _ => true
  | _ => false

abbrev Log := List (Nat × JsString × Int)

/-- What the floors have admitted: under which process, key and time. -/
structure Counted (env : ApiEnv) (delay : Nat) (s : System GuardShared GuardState) (source client : Surface → Log) :
    Prop where
  sourceFloor : ∀ surface,
    Floor SOURCE_MAX_PER_MINUTE 60000 0 s.shared.clock (s.shared.source surface) (source surface)
  clientFloor : ∀ surface, Floor surface.max 60000 delay s.shared.clock (s.shared.client surface) (client surface)
  arrived : ∀ surface p, p ∈ (source surface).map Prod.fst → s.procs p ≠ .waiting
  answered : ∀ surface p, p ∈ (client surface).map Prod.fst → (s.procs p).uncounted = false
  inSource : ∀ p surface req now, (s.procs p).pastSource = some (surface, req, now) →
    (p, socketAddress req, now) ∈ source surface ∧ now ≤ s.shared.clock
  inClient : ∀ p surface req now key, (s.procs p).pastClient = some (surface, req, now) →
    surface.client env req = some key → (p, key, now) ∈ client surface

theorem counted_started (env : ApiEnv) (delay : Nat) (clock : Int) :
    Counted env delay (started clock) (fun _ => []) (fun _ => []) where
  sourceFloor _ := floor_empty
  clientFloor _ := floor_empty
  arrived _ p hp := absurd hp List.not_mem_nil
  answered _ p hp := absurd hp List.not_mem_nil
  inSource p surface req now hp := by cases hp
  inClient p surface req now key hp := by cases hp

section Step

variable {env : ApiEnv} {delay : Nat} {s : System GuardShared GuardState} {source client : Surface → Log} {p : Nat}

/-- A request that moves on without being counted, and is not past a count it was not past before. -/
theorem Counted.move (h : Counted env delay s source client) {state : GuardState}
    (harrived : s.procs p ≠ .waiting → state ≠ .waiting)
    (hanswered : (s.procs p).uncounted = false → state.uncounted = false)
    (hsource : ∀ past, state.pastSource = some past → (s.procs p).pastSource = some past)
    (hclient : ∀ surface req now, state.pastClient = some (surface, req, now) →
      (s.procs p).pastClient = some (surface, req, now) ∨ surface.client env req = none) :
    Counted env delay ⟨s.shared, Function.update s.procs p state⟩ source client where
  sourceFloor := h.sourceFloor
  clientFloor := h.clientFloor
  arrived surface q hq := by
    by_cases hqp : q = p
    · subst hqp
      simpa using harrived (h.arrived surface q hq)
    · simpa [hqp] using h.arrived surface q hq
  answered surface q hq := by
    by_cases hqp : q = p
    · subst hqp
      simpa using hanswered (h.answered surface q hq)
    · simpa [hqp] using h.answered surface q hq
  inSource q surface req now hq := by
    by_cases hqp : q = p
    · subst hqp
      exact h.inSource q surface req now (hsource _ (by simpa using hq))
    · exact h.inSource q surface req now (by simpa [hqp] using hq)
  inClient q surface req now key hq hkey := by
    by_cases hqp : q = p
    · subst hqp
      rcases hclient surface req now (by simpa using hq) with hpast | hnone
      · exact h.inClient q surface req now key hpast hkey
      · cases hnone.symm.trans hkey
    · exact h.inClient q surface req now key (by simpa [hqp] using hq) hkey

/-- A request is counted under the address of its connection. -/
theorem Counted.countSource (h : Counted env delay s source client) (hp : s.procs p = .waiting) {surface : Surface}
    {req : ApiRequest} {handler : Handler} {sh : GuardShared} {state : GuardState}
    (hask : askSource surface req handler s.shared = (sh, state)) :
    ∃ source', Counted env delay ⟨sh, Function.update s.procs p state⟩ source' client := by
  have hnew : ∀ f, p ∉ (source f).map Prod.fst := fun f hmem => h.arrived f p hmem hp
  have hunanswered : ∀ f, p ∉ (client f).map Prod.fst := fun f hmem => by
    have hcounted := h.answered f p hmem
    rw [hp] at hcounted
    cases hcounted
  unfold askSource at hask
  cases hallow : SlidingWindowRateLimiter.allowKey SOURCE_MAX_PER_MINUTE 60000 (s.shared.source surface)
      (socketAddress req) s.shared.clock with
  | mk ok hits =>
      rw [hallow] at hask
      obtain ⟨rfl, rfl⟩ := Prod.mk.inj hask
      have hfloor := (h.sourceFloor surface).allow (hnew surface) (socketAddress req) (le_refl _)
        (by simp) hallow
      let entry : Log := if ok then [(p, socketAddress req, s.shared.clock)] else []
      refine ⟨Function.update source surface (entry ++ source surface), ?_, ?_, ?_, ?_, ?_, ?_⟩
      · intro f
        by_cases hf : f = surface
        · subst hf
          cases ok <;> simpa [entry] using hfloor
        · simpa [hf] using h.sourceFloor f
      · exact h.clientFloor
      · intro f q hq
        by_cases hqp : q = p
        · subst hqp
          cases ok <;> simp
        · have hold : q ∈ (source f).map Prod.fst := by
            by_cases hf : f = surface
            · subst hf
              cases ok <;> simpa [entry, hqp] using hq
            · simpa [hf] using hq
          simpa [hqp] using h.arrived f q hold
      · intro f q hq
        have hqp : q ≠ p := fun heq => hunanswered f (heq ▸ hq)
        simpa [hqp] using h.answered f q hq
      · intro q f req' now hq
        by_cases hqp : q = p
        · -- The request itself is past the count exactly when there was room for it.
          subst hqp
          cases ok with
          | false => simp [GuardState.pastSource] at hq
          | true =>
              obtain ⟨rfl, rfl, rfl⟩ : surface = f ∧ req = req' ∧ s.shared.clock = now := by
                simpa [GuardState.pastSource] using hq
              exact ⟨by simp [entry], le_refl _⟩
        · obtain ⟨hmem, hnow⟩ := h.inSource q f req' now (by simpa [hqp] using hq)
          refine ⟨?_, hnow⟩
          by_cases hf : f = surface
          · subst hf
            simp [hmem]
          · simpa [hf] using hmem
      · intro q f req' now key hq hkey
        by_cases hqp : q = p
        · subst hqp
          cases ok <;> simp [GuardState.pastClient] at hq
        · exact h.inClient q f req' now key (by simpa [hqp] using hq) hkey

/-- A request is counted under its visitor, not more than `delay` after it came. -/
theorem Counted.countClient (h : Counted env delay s source client) {surface : Surface} {req : ApiRequest}
    {handler : Handler} {now : Int} (hp : s.procs p = .askedSource surface req handler now)
    (hprompt : s.shared.clock ≤ now + delay) {key : JsString} (hkey : surface.client env req = some key)
    {sh : GuardShared} {state : GuardState}
    (hask : askClient surface req handler now key s.shared = (sh, state)) :
    ∃ client', Counted env delay ⟨sh, Function.update s.procs p state⟩ source client' := by
  have hnew : ∀ f, p ∉ (client f).map Prod.fst := fun f hmem => by
    have hcounted := h.answered f p hmem
    rw [hp] at hcounted
    cases hcounted
  obtain ⟨hmem, hnow⟩ := h.inSource p surface req now (by rw [hp]; rfl)
  unfold askClient at hask
  cases hallow : SlidingWindowRateLimiter.allowKey surface.max 60000 (s.shared.client surface) key now with
  | mk ok hits =>
      rw [hallow] at hask
      obtain ⟨rfl, rfl⟩ := Prod.mk.inj hask
      have hfloor := (h.clientFloor surface).allow (hnew surface) key hnow hprompt hallow
      let entry : Log := if ok then [(p, key, now)] else []
      refine ⟨Function.update client surface (entry ++ client surface), h.sourceFloor, ?_, ?_, ?_, ?_, ?_⟩
      · intro f
        by_cases hf : f = surface
        · subst hf
          cases ok <;> simpa [entry] using hfloor
        · simpa [hf] using h.clientFloor f
      · intro f q hq
        by_cases hqp : q = p
        · subst hqp
          cases ok <;> simp
        · simpa [hqp] using h.arrived f q hq
      · intro f q hq
        by_cases hqp : q = p
        · subst hqp
          cases ok <;> simp [GuardState.uncounted]
        · have hold : q ∈ (client f).map Prod.fst := by
            by_cases hf : f = surface
            · subst hf
              cases ok <;> simpa [entry, hqp] using hq
            · simpa [hf] using hq
          simpa [hqp] using h.answered f q hold
      · intro q f req' now' hq
        by_cases hqp : q = p
        · subst hqp
          cases ok with
          | false => simp [GuardState.pastSource] at hq
          | true =>
              obtain ⟨rfl, rfl, rfl⟩ : surface = f ∧ req = req' ∧ now = now' := by
                simpa [GuardState.pastSource] using hq
              exact ⟨hmem, hnow⟩
        · exact h.inSource q f req' now' (by simpa [hqp] using hq)
      · intro q f req' now' key' hq hkey'
        by_cases hqp : q = p
        · subst hqp
          cases ok with
          | false => simp [GuardState.pastClient] at hq
          | true =>
              obtain ⟨rfl, rfl, rfl⟩ : surface = f ∧ req = req' ∧ now = now' := by
                simpa [GuardState.pastClient] using hq
              obtain rfl := Option.some.inj (hkey.symm.trans hkey')
              simp [entry]
        · have hold := h.inClient q f req' now' key' (by simpa [hqp] using hq) hkey'
          by_cases hf : f = surface
          · subst hf
            simp [hold]
          · simpa [hf] using hold

/-- One step of the guard keeps the counts. -/
theorem Counted.act (h : Counted env delay s source client) {choice : GuardChoice} {sh : GuardShared}
    {state : GuardState} (hprompt : Prompt delay s (.proc p choice))
    (hstep : GuardStep env s.shared choice (s.procs p) sh state) :
    ∃ source' client', Counted env delay ⟨sh, Function.update s.procs p state⟩ source' client' := by
  generalize hproc : s.procs p = before at hstep
  cases hstep with
  | arrive hcan =>
      rcases canActivate_cases hcan with ⟨surface, handler, -, hask⟩ | ⟨rfl, hquiet⟩
      · obtain ⟨source', hcounted⟩ := h.countSource hproc hask
        exact ⟨source', client, hcounted⟩
      · refine ⟨source, client, h.move ?_ ?_ ?_ ?_⟩
        · exact fun hwaits => absurd hproc hwaits
        · intro hcounted
          rw [hproc] at hcounted
          cases hcounted
        · rintro past hpast
          rcases hquiet with ⟨handler, -, rfl⟩ | ⟨policy, handler, -, rfl⟩ | ⟨e, rfl⟩ | rfl <;> cases hpast
        · rintro f req' now hpast
          rcases hquiet with ⟨handler, -, rfl⟩ | ⟨policy, handler, -, rfl⟩ | ⟨e, rfl⟩ | rfl <;> cases hpast
  | unvouched hclient =>
      refine ⟨source, client, h.move (fun _ => nofun) (fun _ => rfl) ?_ ?_⟩
      · rintro past ⟨⟩
        rw [hproc]
        rfl
      · rintro f req' now' ⟨⟩
        exact Or.inr hclient
  | vouched hclient hask =>
      obtain ⟨client', hcounted⟩ := h.countClient hproc (hprompt _ _ _ _ hproc) hclient hask
      exact ⟨source, client', hcounted⟩
  | counted =>
      refine ⟨source, client, h.move (fun _ => nofun) (fun _ => rfl) ?_ ?_⟩
      · rintro past ⟨⟩
        rw [hproc]
        rfl
      · rintro f req' now' ⟨⟩
        rw [hproc]
        exact Or.inl rfl
  | entered _ =>
      refine ⟨source, client, h.move (fun _ => nofun) (fun _ => rfl) ?_ ?_⟩
      · rintro past ⟨⟩
      · rintro f req' now' ⟨⟩
  | refused _ =>
      refine ⟨source, client, h.move (fun _ => nofun) (fun _ => rfl) ?_ ?_⟩
      · rintro past ⟨⟩
      · rintro f req' now' ⟨⟩

end Step

theorem counted_of_reaches {env : ApiEnv} {delay : Nat} {clock : Int} {s : System GuardShared GuardState}
    (h : Reaches (guard env) (Prompt delay) (started clock) s) :
    ∃ source client, Counted env delay s source client := by
  refine Reaches.invariant (I := fun s => ∃ source client, Counted env delay s source client) ?_ h
    ⟨_, _, counted_started env delay clock⟩
  rintro s l s' ⟨source, client, hs⟩ hprompt hstep
  cases l with
  | proc p choice =>
      obtain ⟨sh, state, hact, rfl⟩ := Program.step_proc hstep
      exact hs.act hprompt (guardStep_of_act hact)
  | env e =>
      obtain ⟨sh, henv, rfl⟩ := Program.step_env hstep
      cases e with
      | tick ms =>
          cases henv
          have hlater : s.shared.clock ≤ s.shared.clock + ms := by omega
          refine ⟨source, client, fun f => (hs.sourceFloor f).later hlater,
            fun f => (hs.clientFloor f).later hlater, hs.arrived, hs.answered, ?_, hs.inClient⟩
          intro p f req now hp
          obtain ⟨hmem, hnow⟩ := hs.inSource p f req now hp
          exact ⟨hmem, le_trans hnow hlater⟩

/-- A request let in on a public surface. -/
def GuardState.admitted : GuardState → Option (Surface × ApiRequest × Int)
  | .letIn req _ now (.surface surface) => some (surface, req, now)
  | _ => none

theorem past_of_admitted {state : GuardState} {past : Surface × ApiRequest × Int} (h : state.admitted = some past) :
    state.pastSource = some past ∧ state.pastClient = some past := by
  unfold GuardState.admitted at h
  split at h
  · cases h
    exact ⟨rfl, rfl⟩
  · cases h

/-- **The budgets of one process hold over every interleaving**, whatever headers the requests bear and
whatever Redis says of them: of the requests that come in any minute no more than 6000 of one connection
address are let in on a surface, and of those that come in any time as much shorter than a minute as the
longest wait for Redis no more than 60, or 20, for one visitor. -/
theorem budgets_kept {env : ApiEnv} {delay : Nat} {clock : Int} {s : System GuardShared GuardState}
    (h : Reaches (guard env) (Prompt delay) (started clock) s) (surface : Surface) (key : JsString) (a : Int)
    {ps : List Nat} (hps : ps.Nodup) :
    ((∀ p ∈ ps, ∃ req now, (s.procs p).admitted = some (surface, req, now) ∧ socketAddress req = key ∧
        a < now ∧ now ≤ a + 60000) → ps.length ≤ SOURCE_MAX_PER_MINUTE) ∧
      ((∀ p ∈ ps, ∃ req now, (s.procs p).admitted = some (surface, req, now) ∧
        surface.client env req = some key ∧ a < now ∧ now ≤ a + (60000 - delay)) → ps.length ≤ surface.max) := by
  obtain ⟨source, client, hcounted⟩ := counted_of_reaches h
  refine ⟨fun hin => ?_, fun hin => ?_⟩
  · refine (hcounted.sourceFloor surface).length_le hps key a fun p hp => ?_
    obtain ⟨req, now, hadmitted, rfl, hopen, hclose⟩ := hin p hp
    obtain ⟨hmem, -⟩ := hcounted.inSource p surface req now (past_of_admitted hadmitted).1
    exact ⟨now, hmem, hopen, by simpa using hclose⟩
  · refine (hcounted.clientFloor surface).length_le hps key a fun p hp => ?_
    obtain ⟨req, now, hadmitted, hclient, hopen, hclose⟩ := hin p hp
    exact ⟨now, hcounted.inClient p surface req now key (past_of_admitted hadmitted).2 hclient, hopen, hclose⟩

/-- A signer's request, as the relay sends it on. -/
def exampleRequest : ApiRequest where
  method := .GET
  path := [js "sign", js "tok"]
  ip := some (js "198.51.100.4")
  remoteAddress := none
  headers := [(js "x-internal-auth", js "a secret of the relay"), (js "x-client-ip", js "203.0.113.9")]

/-- A key with room: the call is let in, and one more call is kept under the key at most. -/
theorem allowKey_of_room {max : Nat} {hits : Hits} {key : JsString} (h : (hits[key]?.getD []).length < max)
    (windowMs : Nat) (now : Int) :
    (SlidingWindowRateLimiter.allowKey max windowMs hits key now).1 = true ∧
      ((SlidingWindowRateLimiter.allowKey max windowMs hits key now).2[key]?.getD []).length ≤
        (hits[key]?.getD []).length + 1 := by
  have hpruned := List.length_filter_le (fun t : Int => decide (now - windowMs < t)) (hits[key]?.getD [])
  have hroom : ¬ ((hits[key]?.getD []).filter fun t => decide (now - windowMs < t)).length ≥ max := by omega
  simp only [SlidingWindowRateLimiter.allowKey, allowWith, SlidingWindowRateLimiter.allow, if_neg hroom,
    Bool.true_and]
  refine ⟨trivial, ?_⟩
  split
  · -- The clean-up keeps what is under the key or drops it whole.
    rw [Std.HashMap.getElem?_filter', Std.HashMap.getElem?_insert_self, Option.filter_some]
    split
    · simpa using hpruned
    · simp
  · rw [Std.HashMap.getElem?_insert_self, Option.getD_some, List.length_append]
    simpa using hpruned

theorem canActivate_example (s : GuardShared) :
    canActivate exampleEnv exampleRequest s = askSource .sign exampleRequest .signView s := by
  have hdispatch : dispatch exampleRequest.method exampleRequest.path = some .signView := by decide +kernel
  have hsecret : relaySecretOk exampleEnv (exampleRequest.headers.get (js "x-internal-auth")) = true := by
    decide +kernel
  unfold canActivate
  rw [hdispatch]
  simp only [Handler.route, declared, hsecret, if_true]

/-- The first `n` requests of the visitor are let in; each has waited nine milliseconds between its counts. -/
structure AllLetIn (n : Nat) (s : System GuardShared GuardState) : Prop where
  clock : s.shared.clock = 5 + 9 * n
  source : ((s.shared.source .sign)[socketAddress exampleRequest]?.getD []).length ≤ n
  client : ((s.shared.client .sign)[js "203.0.113.9"]?.getD []).length ≤ n
  letIn : ∀ p < n, s.procs p = .letIn exampleRequest .signView (5 + 9 * p) (.surface .sign)
  waiting : ∀ p, n ≤ p → s.procs p = .waiting

/-- As long as the visitor's budget has room, one more request gets in. -/
theorem AllLetIn.next {n : Nat} (hn : n < Surface.sign.max) {s : System GuardShared GuardState}
    (h : AllLetIn n s) : ∃ s', Reaches (guard exampleEnv) (Prompt 9) s s' ∧ AllLetIn (n + 1) s' := by
  obtain ⟨⟨now, source, client⟩, procs⟩ := s
  have hvisitor : Surface.sign.client exampleEnv exampleRequest = some (js "203.0.113.9") := by decide +kernel
  have hmax : Surface.sign.max ≤ SOURCE_MAX_PER_MINUTE := by decide
  have hsourceRoom : ((source .sign)[socketAddress exampleRequest]?.getD []).length < SOURCE_MAX_PER_MINUTE :=
    h.source.trans_lt (hn.trans_le hmax)
  have hclientRoom : ((client .sign)[js "203.0.113.9"]?.getD []).length < Surface.sign.max := h.client.trans_lt hn
  obtain ⟨hsource, hsource'⟩ := allowKey_of_room hsourceRoom 60000 now
  obtain ⟨hclient, hclient'⟩ := allowKey_of_room hclientRoom 60000 now
  have hwaiting : procs n = .waiting := h.waiting n le_rfl
  let source' := Function.update source .sign (SlidingWindowRateLimiter.allowKey SOURCE_MAX_PER_MINUTE 60000
    (source .sign) (socketAddress exampleRequest) now).2
  let client' := Function.update client .sign (SlidingWindowRateLimiter.allowKey Surface.sign.max 60000
    (client .sign) (js "203.0.113.9") now).2
  let asked := Function.update procs n (.askedSource .sign exampleRequest .signView now)
  let counted := Function.update asked n (.askedClient .sign exampleRequest .signView now)
  let entered := Function.update counted n (.letIn exampleRequest .signView now (.surface .sign))
  have harrive : Moves (guard exampleEnv) (Prompt 9) ⟨⟨now, source, client⟩, procs⟩
      ⟨⟨now, source', client⟩, asked⟩ := by
    refine ⟨.proc n (.arrive exampleRequest), trivial, ?_⟩
    simp [Program.step, guard, guardAct, hwaiting, canActivate_example, askSource, hsource, source', asked]
  have htick : Moves (guard exampleEnv) (Prompt 9) ⟨⟨now, source', client⟩, asked⟩
      ⟨⟨now + 9, source', client⟩, asked⟩ := ⟨.env (.tick 9), trivial, rfl⟩
  have hcount : Moves (guard exampleEnv) (Prompt 9) ⟨⟨now + 9, source', client⟩, asked⟩
      ⟨⟨now + 9, source', client'⟩, counted⟩ := by
    refine ⟨.proc n (.verdict true), fun surface req handler t ht => ?_, ?_⟩
    · have hasked : asked n = .askedSource .sign exampleRequest .signView now := Function.update_self ..
      obtain ⟨-, -, -, rfl⟩ := GuardState.askedSource.inj (hasked.symm.trans ht)
      exact le_rfl
    · simp [Program.step, guard, guardAct, asked, hvisitor, askClient, hclient, client', counted]
  have henter : Moves (guard exampleEnv) (Prompt 9) ⟨⟨now + 9, source', client'⟩, counted⟩
      ⟨⟨now + 9, source', client'⟩, entered⟩ := by
    refine ⟨.proc n (.verdict true), fun surface req handler t ht => ?_, ?_⟩
    · have hcounted : counted n = .askedClient .sign exampleRequest .signView now := Function.update_self ..
      cases hcounted.symm.trans ht
    · simp [Program.step, guard, guardAct, counted, entered]
  have hnow : now = 5 + 9 * n := h.clock
  refine ⟨⟨⟨now + 9, source', client'⟩, entered⟩,
    (((Relation.ReflTransGen.single harrive).tail htick).tail hcount).tail henter, ?_, ?_, ?_, fun p hp => ?_,
    fun p hp => ?_⟩
  · change now + 9 = 5 + 9 * ((n + 1 : Nat) : Int)
    omega
  · simpa [source'] using hsource'.trans (Nat.succ_le_succ h.source)
  · simpa [client'] using hclient'.trans (Nat.succ_le_succ h.client)
  · by_cases hlast : p = n
    · subst hlast
      simp [entered, hnow]
    · simpa [entered, counted, asked, hlast] using h.letIn p (by omega)
  · have hne : p ≠ n := by omega
    simpa [entered, counted, asked, hne] using h.waiting p (by omega)

theorem exists_allLetIn {n : Nat} (hn : n ≤ Surface.sign.max) :
    ∃ s, Reaches (guard exampleEnv) (Prompt 9) (started 5) s ∧ AllLetIn n s := by
  induction n with
  | zero =>
      refine ⟨started 5, Reaches.refl _, rfl, ?_, ?_, fun p hp => absurd hp (Nat.not_lt_zero p), fun _ _ => rfl⟩
      · simp [started]
      · simp [started]
  | succ n ih =>
      obtain ⟨s, hreach, hall⟩ := ih (Nat.le_of_succ_le hn)
      obtain ⟨s', hnext, hall'⟩ := hall.next hn
      exact ⟨s', hreach.trans hnext, hall'⟩

/-- A visitor's whole budget is used within the minute, and no request more. -/
theorem budgets_kept_example : ∃ s : System GuardShared GuardState,
    (∀ p < 60, (s.procs p).admitted = some (Surface.sign, exampleRequest, 5 + 9 * (p : Int))) ∧
      (List.range 60).length ≤ Surface.sign.max := by
  obtain ⟨s, hreach, hall⟩ := exists_allLetIn (show 60 ≤ Surface.sign.max from le_rfl)
  have hadmitted (p : Nat) (hp : p < 60) :
      (s.procs p).admitted = some (Surface.sign, exampleRequest, 5 + 9 * (p : Int)) := by
    rw [hall.letIn p hp]
    rfl
  have hvisitor : Surface.sign.client exampleEnv exampleRequest = some (js "203.0.113.9") := by decide +kernel
  refine ⟨s, hadmitted, (budgets_kept hreach .sign (js "203.0.113.9") 0 List.nodup_range).2 fun p hp => ?_⟩
  have hlt : p < 60 := List.mem_range.mp hp
  exact ⟨exampleRequest, 5 + 9 * p, hadmitted p hlt, hvisitor, by omega, by omega⟩

end ESignSoft.Perimeter
