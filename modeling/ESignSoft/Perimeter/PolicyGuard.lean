import ESignSoft.Billing.Access
import ESignSoft.Lib.Interleaving
import ESignSoft.Lib.Utf8
import ESignSoft.Operations.WindowLimiter
import ESignSoft.Perimeter.Routes

/-!
# Who reaches a handler

One guard stands in front of every handler.  It asks for what the handler declares: nothing, the relay's
secret, a verified session, or a session in a workspace with a role and with access; on the two public
surfaces it also counts the requests of a connection and those of a visitor a front end vouches for.  The
guard waits in between for the identity provider, for the tables and for Redis, and requests interleave.

* `Checked`, `checked_of_reaches` — what a request let in has shown, on every run;
* `let_in_only` — so nobody reaches a signing handler without the secret, or a tenant's without a token and
  the role; viewers only read, and a workspace that is locked only reads what it has and pays.
-/

namespace ESignSoft.Perimeter

open ESignSoft.Lib.JsText ESignSoft.Lib.HttpHeaders ESignSoft.Lib.Utf8 ESignSoft.Lib.Interleaving
open ESignSoft.Identity ESignSoft.Billing ESignSoft.Operations

/-! ## Identities -/

/-- A verified token's payload: the organisation and the role stand in it in one of two ways. -/
structure ClaimsPayload where
  sub : Option JsString
  email : Option JsString
  org_id : Option JsString
  org_role : Option JsString
  org_name : Option JsString
  /-- `o`, with its `id` and `rol`. -/
  o : Option (Option JsString × Option JsString)

/-- `replace(/^org:/, '')`. -/
def withoutOrg (raw : JsString) : JsString := if (js "org:").isPrefixOf raw then raw.drop 4 else raw

/-- No letter outside ASCII becomes one of the words below in lower case. -/
def toMembershipRole (raw : Option JsString) : MembershipRole :=
  match raw with
  | none => .VIEWER
  | some raw =>
      let role := byteLowerCase (withoutOrg raw)
      if role = js "owner" then .OWNER
      else if role = js "admin" then .ADMIN
      else if role = js "member" ∨ role = js "basic_member" then .MEMBER
      else .VIEWER

def normalizeClaims (payload : ClaimsPayload) : VerifiedIdentity :=
  let clerkOrgId := payload.org_id.or (payload.o.bind Prod.fst)
  let rawRole := payload.org_role.or (payload.o.bind Prod.snd)
  { clerkUserId := payload.sub.getD []
    email := payload.email
    clerkOrgId := clerkOrgId
    orgName := payload.org_name
    role := clerkOrgId.map fun _ => toMembershipRole rawRole }

def RANK : MembershipRole → Nat
  | .OWNER => 4
  | .ADMIN => 3
  | .MEMBER => 2
  | .VIEWER => 1

def roleSatisfies (actual required : MembershipRole) : Bool := RANK required ≤ RANK actual

def MIN_ROLE : PolicyName → Option MembershipRole
  | .viewer => some .VIEWER
  | .member => some .MEMBER
  | .admin => some .ADMIN
  | .owner => some .OWNER
  | _ => none

/-! ## Requests -/

structure ApiRequest where
  method : Method
  path : List JsString
  ip : Option JsString
  remoteAddress : Option JsString
  headers : Headers
  deriving DecidableEq

structure ApiEnv where
  SIGN_RELAY_SECRET : JsString
  VERIFY_RELAY_SECRET : Option JsString

structure HttpException where
  status : Nat
  message : JsString
  code : Option JsString
  deriving DecidableEq

def forbidden : HttpException := ⟨403, js "Forbidden", none⟩

def unauthorized : HttpException := ⟨401, js "Unauthorized", none⟩

def linkNotValid : HttpException := ⟨404, js "This signing link is not valid.", none⟩

def tooManyAttempts : HttpException := ⟨429, js "Too many verification attempts.", none⟩

def trialEnded : HttpException := ⟨402, js "Your free trial has ended.", some (js "TRIAL_ENDED")⟩

/-- Equal bytes. -/
def secretOk (header expected : Option JsString) : Bool :=
  match truthy header, truthy expected with
  | some header, some expected => utf8 header == utf8 expected
  | _, _ => false

def relaySecretOk (env : ApiEnv) (header : Option JsString) : Bool := secretOk header (some env.SIGN_RELAY_SECRET)

def socketAddress (req : ApiRequest) : JsString := (req.ip.or req.remoteAddress).getD (js "unknown")

def trustedClientIp (req : ApiRequest) (trusted : Bool) : Option JsString :=
  if !trusted then none
  else
    match req.headers.get (js "x-client-ip") with
    | none => none
    | some supplied =>
        let value := trim supplied
        if value = [] ∨ value.length > 64 ∨ 0x2C ∈ value then none else some value

/-- Of several `authorization` lines the first is kept. -/
def bearerToken (req : ApiRequest) : Option JsString :=
  match (req.headers.values (js "authorization")).head? with
  | none => none
  | some header => if (js "Bearer ").isPrefixOf header then truthy (some (header.drop 7)) else none

/-! ## Sessions -/

structure Entitlement where
  plan : TenantPlan
  trialEndsAt : Int
  paidUntil : Option Int

/-- What the identity provider and the tables answer a request. -/
structure Session where
  verifyToken : JsString → Option ClaimsPayload
  establish : VerifiedIdentity → Except HttpException RequestAuth
  /-- Of a workspace. -/
  entitlement : Nat → Option Entitlement

def Entitlement.locked (e : Entitlement) (now : Int) : Bool :=
  isLocked (tenantAccess e.plan e.trialEndsAt e.paidUntil now)

/-- The guard behind the public surfaces. -/
def sessionGate (policy : PolicyName) (allowed : Bool) (req : ApiRequest) (session : Session) (now : Int) :
    Except HttpException (Option RequestAuth) :=
  match bearerToken req with
  | none => .error unauthorized
  | some token =>
      match session.verifyToken token with
      | none => .error unauthorized
      | some payload =>
          if policy = .session then .ok none
          else
            match MIN_ROLE policy with
            | none => .error forbidden
            | some required =>
                match session.establish (normalizeClaims payload) with
                | .error e => .error e
                | .ok auth =>
                    if !roleSatisfies auth.role required then .error forbidden
                    else if (session.entitlement auth.tenantId).any (fun e => e.locked now) && !allowed then
                      .error trialEnded
                    else .ok (some auth)

/-! ## The guard -/

/-- The two public surfaces. -/
inductive Surface
  | sign
  | verify
  deriving DecidableEq

def SOURCE_MAX_PER_MINUTE : Nat := 6000

/-- The visitor's budget: `SIGN_RATE_LIMITER`, `VERIFY_RATE_LIMITER`. -/
def Surface.max : Surface → Nat
  | .sign => 60
  | .verify => 20

def Surface.overLimit : Surface → HttpException
  | .sign => linkNotValid
  | .verify => tooManyAttempts

/-- The visitor a front end vouches for. -/
def Surface.client (env : ApiEnv) (surface : Surface) (req : ApiRequest) : Option JsString :=
  match surface with
  | .sign => trustedClientIp req true
  | .verify => trustedClientIp req (secretOk (req.headers.get (js "x-internal-auth")) env.VERIFY_RELAY_SECRET)

/-- The floors of the four windows in the process, by surface, and its clock. -/
structure GuardShared where
  clock : Int
  source : Surface → Hits
  client : Surface → Hits

/-- How a request was let in. -/
inductive Via
  | plain
  | surface (surface : Surface)
  | session (session : Session) (auth : Option RequestAuth)

/-- How far the guard has come with a request; a time is the one it read when the request came. -/
inductive GuardState
  | waiting
  /-- The connection's budget has room here; Redis is asked. -/
  | askedSource (surface : Surface) (req : ApiRequest) (handler : Handler) (now : Int)
  /-- The visitor's budget has room here; Redis is asked. -/
  | askedClient (surface : Surface) (req : ApiRequest) (handler : Handler) (now : Int)
  | askedSession (policy : PolicyName) (req : ApiRequest) (handler : Handler)
  | letIn (req : ApiRequest) (handler : Handler) (now : Int) (via : Via)
  | refused (e : HttpException)
  /-- No handler has the method and the path. -/
  | unrouted

def askSource (surface : Surface) (req : ApiRequest) (handler : Handler) (s : GuardShared) :
    GuardShared × GuardState :=
  let answer := SlidingWindowRateLimiter.allowKey SOURCE_MAX_PER_MINUTE 60000 (s.source surface)
    (socketAddress req) s.clock
  ({ s with source := Function.update s.source surface answer.2 },
    if answer.1 then .askedSource surface req handler s.clock else .refused surface.overLimit)

def askClient (surface : Surface) (req : ApiRequest) (handler : Handler) (now : Int) (client : JsString)
    (s : GuardShared) : GuardShared × GuardState :=
  let answer := SlidingWindowRateLimiter.allowKey surface.max 60000 (s.client surface) client now
  ({ s with client := Function.update s.client surface answer.2 },
    if answer.1 then .askedClient surface req handler now else .refused surface.overLimit)

/-- `canActivate`, up to what it waits for first. -/
def canActivate (env : ApiEnv) (req : ApiRequest) (s : GuardShared) : GuardShared × GuardState :=
  match dispatch req.method req.path with
  | none => (s, .unrouted)
  | some handler =>
      match handler.route.policy with
      -- Default deny.
      | none => (s, .refused forbidden)
      | some .publicPolicy => (s, .letIn req handler s.clock .plain)
      | some .publicVerify => askSource .verify req handler s
      | some .signRelay =>
          if relaySecretOk env (req.headers.get (js "x-internal-auth")) then askSource .sign req handler s
          else (s, .refused linkNotValid)
      | some policy => (s, .askedSession policy req handler)

inductive GuardChoice
  | arrive (req : ApiRequest)
  /-- What Redis says, and `true` where it cannot be asked. -/
  | verdict (allowed : Bool)
  | answered (session : Session)

inductive Outside
  | tick (ms : Nat)

def guardAct (env : ApiEnv) (choice : GuardChoice) (s : GuardShared) (state : GuardState) :
    Option (GuardShared × GuardState) :=
  match choice, state with
  | .arrive req, .waiting => some (canActivate env req s)
  | .verdict true, .askedSource surface req handler now =>
      match surface.client env req with
      | none => some (s, .letIn req handler now (.surface surface))
      | some client => some (askClient surface req handler now client s)
  | .verdict true, .askedClient surface req handler now => some (s, .letIn req handler now (.surface surface))
  | .verdict false, .askedSource surface _ _ _ => some (s, .refused surface.overLimit)
  | .verdict false, .askedClient surface _ _ _ => some (s, .refused surface.overLimit)
  | .answered session, .askedSession policy req handler =>
      match sessionGate policy handler.route.allowWhenLocked req session s.clock with
      | .error e => some (s, .refused e)
      | .ok auth => some (s, .letIn req handler s.clock (.session session auth))
  | _, _ => none

def guard (env : ApiEnv) : Program GuardShared GuardState GuardChoice Outside where
  act _ := guardAct env
  env
    | .tick ms, s => some { s with clock := s.clock + ms }

/-- A process that has just come up. -/
def started (clock : Int) : System GuardShared GuardState where
  shared := ⟨clock, fun _ => ∅, fun _ => ∅⟩
  procs _ := .waiting

/-! ## What a request has shown -/

/-- A request on a surface has the handler's policy, and on the signing surface the secret. -/
structure OnSurface (env : ApiEnv) (surface : Surface) (req : ApiRequest) (handler : Handler) : Prop where
  dispatched : dispatch req.method req.path = some handler
  declares : handler.route.policy = some (match surface with | .sign => .signRelay | .verify => .publicVerify)
  secret : surface = .sign → relaySecretOk env (req.headers.get (js "x-internal-auth")) = true

/-- A request is asked for a session. -/
structure NeedsSession (policy : PolicyName) (req : ApiRequest) (handler : Handler) : Prop where
  dispatched : dispatch req.method req.path = some handler
  declares : handler.route.policy = some policy
  closed : policy ≠ .publicPolicy ∧ policy ≠ .publicVerify ∧ policy ≠ .signRelay

/-- What a request let in has shown. -/
inductive Checked (env : ApiEnv) (req : ApiRequest) (handler : Handler) (now : Int) : Via → Prop
  | plain (hdispatched : dispatch req.method req.path = some handler)
      (hpolicy : handler.route.policy = some .publicPolicy) : Checked env req handler now .plain
  | surface {surface : Surface} (h : OnSurface env surface req handler) :
      Checked env req handler now (.surface surface)
  | session {policy : PolicyName} {session : Session} {auth : Option RequestAuth}
      (h : NeedsSession policy req handler)
      (hgate : sessionGate policy handler.route.allowWhenLocked req session now = .ok auth) :
      Checked env req handler now (.session session auth)

/-- What is known of a request the guard has come so far with. -/
def StateOk (env : ApiEnv) : GuardState → Prop
  | .askedSource surface req handler _ | .askedClient surface req handler _ => OnSurface env surface req handler
  | .askedSession policy req handler => NeedsSession policy req handler
  | .letIn req handler now via => Checked env req handler now via
  | .waiting | .refused _ | .unrouted => True

/-- How the guard begins: on a surface it counts, otherwise it changes nothing. -/
theorem canActivate_cases {env : ApiEnv} {req : ApiRequest} {s s' : GuardShared} {state : GuardState}
    (h : canActivate env req s = (s', state)) :
    (∃ surface handler, OnSurface env surface req handler ∧ askSource surface req handler s = (s', state)) ∨
      s' = s ∧ ((∃ handler, Checked env req handler s.clock .plain ∧ state = .letIn req handler s.clock .plain) ∨
        (∃ policy handler, NeedsSession policy req handler ∧ state = .askedSession policy req handler) ∨
        (∃ e, state = .refused e) ∨ state = .unrouted) := by
  unfold canActivate at h
  cases hdispatch : dispatch req.method req.path with
  | none =>
      rw [hdispatch] at h
      obtain ⟨rfl, rfl⟩ := Prod.mk.inj h
      exact Or.inr ⟨rfl, Or.inr (Or.inr (Or.inr rfl))⟩
  | some handler =>
      rw [hdispatch] at h
      dsimp only at h
      split at h
      · obtain ⟨rfl, rfl⟩ := Prod.mk.inj h
        exact Or.inr ⟨rfl, Or.inr (Or.inr (Or.inl ⟨_, rfl⟩))⟩
      · rename_i hpolicy
        obtain ⟨rfl, rfl⟩ := Prod.mk.inj h
        exact Or.inr ⟨rfl, Or.inl ⟨handler, Checked.plain hdispatch hpolicy, rfl⟩⟩
      · rename_i hpolicy
        exact Or.inl ⟨.verify, handler, ⟨hdispatch, hpolicy, fun hsign => by cases hsign⟩, h⟩
      · rename_i hpolicy
        split at h
        · rename_i hsecret
          exact Or.inl ⟨.sign, handler, ⟨hdispatch, hpolicy, fun _ => hsecret⟩, h⟩
        · obtain ⟨rfl, rfl⟩ := Prod.mk.inj h
          exact Or.inr ⟨rfl, Or.inr (Or.inr (Or.inl ⟨_, rfl⟩))⟩
      · rename_i policy hplain hverify hsign hpolicy
        obtain ⟨rfl, rfl⟩ := Prod.mk.inj h
        have hclosed : policy ≠ .publicPolicy ∧ policy ≠ .publicVerify ∧ policy ≠ .signRelay :=
          ⟨fun heq => hplain (by rw [heq]), fun heq => hverify (by rw [heq]), fun heq => hsign (by rw [heq])⟩
        exact Or.inr ⟨rfl, Or.inr (Or.inl ⟨policy, handler, ⟨hdispatch, hpolicy, hclosed⟩, rfl⟩)⟩

/-- What one step of the guard can be. -/
inductive GuardStep (env : ApiEnv) (s : GuardShared) : GuardChoice → GuardState → GuardShared → GuardState → Prop
  | arrive {req : ApiRequest} {s' : GuardShared} {state : GuardState} (h : canActivate env req s = (s', state)) :
      GuardStep env s (.arrive req) .waiting s' state
  | unvouched {surface : Surface} {req : ApiRequest} {handler : Handler} {now : Int}
      (hclient : surface.client env req = none) :
      GuardStep env s (.verdict true) (.askedSource surface req handler now) s
        (.letIn req handler now (.surface surface))
  | vouched {surface : Surface} {req : ApiRequest} {handler : Handler} {now : Int} {client : JsString}
      {s' : GuardShared} {state : GuardState} (hclient : surface.client env req = some client)
      (h : askClient surface req handler now client s = (s', state)) :
      GuardStep env s (.verdict true) (.askedSource surface req handler now) s' state
  | counted {surface : Surface} {req : ApiRequest} {handler : Handler} {now : Int} :
      GuardStep env s (.verdict true) (.askedClient surface req handler now) s
        (.letIn req handler now (.surface surface))
  | entered {policy : PolicyName} {req : ApiRequest} {handler : Handler} {session : Session}
      {auth : Option RequestAuth}
      (hgate : sessionGate policy handler.route.allowWhenLocked req session s.clock = .ok auth) :
      GuardStep env s (.answered session) (.askedSession policy req handler) s
        (.letIn req handler s.clock (.session session auth))
  | refused {choice : GuardChoice} {state : GuardState} {e : HttpException} (hwaits : state ≠ .waiting) :
      GuardStep env s choice state s (.refused e)

theorem guardStep_of_act {env : ApiEnv} {choice : GuardChoice} {s s' : GuardShared} {state state' : GuardState}
    (h : guardAct env choice s state = some (s', state')) : GuardStep env s choice state s' state' := by
  unfold guardAct at h
  split at h
  · exact GuardStep.arrive (Option.some.inj h)
  · split at h
    · rename_i hclient
      cases h
      exact GuardStep.unvouched hclient
    · rename_i client hclient
      exact GuardStep.vouched hclient (Option.some.inj h)
  · cases h
    exact GuardStep.counted
  · cases h
    exact GuardStep.refused (by simp)
  · cases h
    exact GuardStep.refused (by simp)
  · split at h
    · cases h
      exact GuardStep.refused (by simp)
    · rename_i auth hgate
      cases h
      exact GuardStep.entered hgate
  · cases h

/-- One step goes from what is known of a request to what is known of it then. -/
theorem stateOk_step {env : ApiEnv} {choice : GuardChoice} {s s' : GuardShared} {state state' : GuardState}
    (h : GuardStep env s choice state s' state') (hstate : StateOk env state) : StateOk env state' := by
  cases h with
  | arrive h =>
      rcases canActivate_cases h with ⟨surface, handler, hsurface, hask⟩ | ⟨-, hquiet⟩
      · obtain ⟨-, rfl⟩ := Prod.mk.inj hask
        split
        · exact hsurface
        · trivial
      · rcases hquiet with ⟨handler, hchecked, rfl⟩ | ⟨policy, handler, hneeds, rfl⟩ | ⟨e, rfl⟩ | rfl
        · exact hchecked
        · exact hneeds
        · trivial
        · trivial
  | unvouched _ => exact Checked.surface hstate
  | vouched _ h =>
      obtain ⟨-, rfl⟩ := Prod.mk.inj h
      split
      · exact hstate
      · trivial
  | counted => exact Checked.surface hstate
  | entered hgate => exact Checked.session hstate hgate
  | refused _ => trivial

/-- **On every run, a request let in has shown what its handler declares.** -/
theorem checked_of_reaches {env : ApiEnv} {clock : Int} {s : System GuardShared GuardState}
    (h : Reaches (guard env) (fun _ _ => True) (started clock) s) (p : Nat) : StateOk env (s.procs p) := by
  refine Reaches.invariant (I := fun s => ∀ p, StateOk env (s.procs p)) ?_ h (fun _ => trivial) p
  intro s l s' hs _ hstep q
  cases l with
  | proc p choice =>
      obtain ⟨sh, state, hact, rfl⟩ := Program.step_proc hstep
      have hnext := stateOk_step (guardStep_of_act hact) (hs p)
      by_cases hq : q = p
      · subst hq
        simpa using hnext
      · simpa [hq] using hs q
  | env e =>
      obtain ⟨sh, -, rfl⟩ := Program.step_env hstep
      exact hs q

/-- What the gate behind the public surfaces has seen of a request it lets through. -/
structure Entered (required : MembershipRole) (allowed : Bool) (req : ApiRequest) (session : Session) (now : Int)
    (auth : RequestAuth) : Prop where
  verified : ∃ token payload, bearerToken req = some token ∧ session.verifyToken token = some payload ∧
    session.establish (normalizeClaims payload) = .ok auth
  role : RANK required ≤ RANK auth.role
  access : ∀ e, session.entitlement auth.tenantId = some e → e.locked now = true → allowed = true

/-- Nobody passes the gate without a token that verifies. -/
theorem bearer_of_gate {policy : PolicyName} {allowed : Bool} {req : ApiRequest} {session : Session} {now : Int}
    {auth : Option RequestAuth} (h : sessionGate policy allowed req session now = .ok auth) :
    ∃ token payload, bearerToken req = some token ∧ session.verifyToken token = some payload := by
  unfold sessionGate at h
  cases htoken : bearerToken req with
  | none =>
      rw [htoken] at h
      cases h
  | some token =>
      cases hpayload : session.verifyToken token with
      | none =>
          simp only [htoken, hpayload] at h
          cases h
      | some payload => exact ⟨token, payload, rfl, hpayload⟩

theorem entered_of_gate {policy : PolicyName} {allowed : Bool} {req : ApiRequest} {session : Session} {now : Int}
    {auth : Option RequestAuth} {required : MembershipRole} (hmin : MIN_ROLE policy = some required)
    (h : sessionGate policy allowed req session now = .ok auth) :
    ∃ a, auth = some a ∧ Entered required allowed req session now a := by
  have hsession : policy ≠ .session := by
    rintro rfl
    cases hmin
  obtain ⟨token, payload, htoken, hpayload⟩ := bearer_of_gate h
  unfold sessionGate at h
  simp only [htoken, hpayload, if_neg hsession, hmin] at h
  cases hestablish : session.establish (normalizeClaims payload) with
  | error e =>
      rw [hestablish] at h
      cases h
  | ok a =>
      simp only [hestablish] at h
      split at h
      · cases h
      · rename_i hrole
        split at h
        · cases h
        · rename_i haccess
          cases h
          refine ⟨a, rfl, ⟨token, payload, htoken, hpayload, hestablish⟩, ?_, ?_⟩
          · simpa [roleSatisfies] using hrole
          · intro e he hlocked
            simpa [he, hlocked] using haccess

/-- The handlers that ask for nothing: the health checks and the payment providers' callbacks. -/
def askNothing : List Handler := [.health, .ready, .paymeRpc, .clickPrepare, .clickComplete]

/-- The handlers that are reached without a credential: the public check of a document is counted, but asks
for none. -/
def openToAll : List Handler := .verifyByHash :: askNothing

theorem open_to_all (h : Handler) (hpolicy : h.route.policy = some .publicPolicy) : h ∈ askNothing := by
  cases h <;> first | decide | cases hpolicy

theorem counted_of_public (h : Handler) (hpolicy : h.route.policy = some .publicVerify) : h = .verifyByHash := by
  cases h <;> first | rfl | cases hpolicy

/-- A request bears the relay's secret, or a token that the identity provider has verified. -/
inductive HasCredential (env : ApiEnv) (req : ApiRequest) : Via → Prop
  | relay {via : Via} (h : relaySecretOk env (req.headers.get (js "x-internal-auth")) = true) :
      HasCredential env req via
  | token {session : Session} {auth : Option RequestAuth} {token : JsString} {payload : ClaimsPayload}
      (hbears : bearerToken req = some token) (hverified : session.verifyToken token = some payload) :
      HasCredential env req (.session session auth)

theorem hasCredential_of_gate {env : ApiEnv} {policy : PolicyName} {allowed : Bool} {req : ApiRequest}
    {session : Session} {now : Int} {auth : Option RequestAuth}
    (h : sessionGate policy allowed req session now = .ok auth) : HasCredential env req (.session session auth) := by
  obtain ⟨token, payload, htoken, hpayload⟩ := bearer_of_gate h
  exact HasCredential.token htoken hpayload

theorem viewer_of_rank {policy : PolicyName} {required : MembershipRole} (hmin : MIN_ROLE policy = some required)
    (hrank : RANK required ≤ RANK .VIEWER) : policy = .viewer := by
  cases policy <;> cases hmin <;> first | rfl | exact absurd hrank (by decide)

/-- **Who reaches a handler, on every run of the guard**: without a credential only the health checks, the
payment callbacks and the public check of a document, and the last only counted; a signing handler only with
the relay's secret, and a handler that asks for a role only with a token that verifies and a session
established with at least that role; with the role of a viewer only to read, and in a workspace that is locked
only what `@AllowWhenLocked` marks. -/
theorem let_in_only {env : ApiEnv} {clock : Int} {s : System GuardShared GuardState}
    (h : Reaches (guard env) (fun _ _ => True) (started clock) s) {p : Nat} {req : ApiRequest}
    {handler : Handler} {now : Int} {via : Via} (hp : s.procs p = .letIn req handler now via) :
    dispatch req.method req.path = some handler ∧
      (handler ∉ openToAll → HasCredential env req via) ∧
      (handler ∉ askNothing → via ≠ .plain) ∧
      (handler = .verifyByHash → via = .surface .verify) ∧
      (handler.route.policy = some .signRelay →
        relaySecretOk env (req.headers.get (js "x-internal-auth")) = true) ∧
      ∀ policy required, handler.route.policy = some policy → MIN_ROLE policy = some required →
        ∃ session auth, via = .session session (some auth) ∧
          Entered required handler.route.allowWhenLocked req session now auth ∧
          (auth.role = .VIEWER → req.method = .GET ∨ req.method = .HEAD) ∧
          ∀ e, session.entitlement auth.tenantId = some e → e.locked now = true → handler ∈ keptOpen := by
  have hchecked : Checked env req handler now via := by
    have hstate := checked_of_reaches h p
    rwa [hp] at hstate
  cases hchecked with
  | plain hdispatched hpolicy =>
      have hasks : handler ∈ askNothing := open_to_all handler hpolicy
      refine ⟨hdispatched, fun hclosed => absurd (List.mem_cons_of_mem _ hasks) hclosed,
        fun hclosed => absurd hasks hclosed, fun hverify => ?_, fun hrelay => ?_, ?_⟩
      · subst hverify
        cases hpolicy
      · cases hpolicy.symm.trans hrelay
      · intro policy required hdeclares hmin
        obtain rfl := Option.some.inj (hpolicy.symm.trans hdeclares)
        cases hmin
  | @surface surface hsurface =>
      refine ⟨hsurface.dispatched, fun hclosed => ?_, fun _ => nofun, fun hverify => ?_, fun hrelay => ?_, ?_⟩
      · cases surface with
        | sign => exact HasCredential.relay (hsurface.secret rfl)
        | verify =>
            -- The public check of a document is one of the handlers that are open.
            obtain rfl := counted_of_public handler hsurface.declares
            exact absurd (List.mem_cons_self ..) hclosed
      · subst hverify
        cases surface with
        | sign => cases hsurface.declares
        | verify => rfl
      · cases surface with
        | sign => exact hsurface.secret rfl
        | verify => cases hsurface.declares.symm.trans hrelay
      · intro policy required hdeclares hmin
        obtain rfl := Option.some.inj (hsurface.declares.symm.trans hdeclares)
        cases surface <;> cases hmin
  | @session policy session auth hneeds hgate =>
      refine ⟨hneeds.dispatched, fun _ => hasCredential_of_gate hgate, fun _ => nofun, fun hverify => ?_,
        fun hrelay => ?_, ?_⟩
      · subst hverify
        exact absurd (Option.some.inj hneeds.declares).symm hneeds.closed.2.1
      · exact absurd (Option.some.inj (hneeds.declares.symm.trans hrelay)) hneeds.closed.2.2
      · intro policy' required hdeclares hmin
        obtain rfl := Option.some.inj (hneeds.declares.symm.trans hdeclares)
        obtain ⟨a, rfl, hentered⟩ := entered_of_gate hmin hgate
        refine ⟨session, a, rfl, hentered, fun hviewer => ?_, fun e he hlocked => ?_⟩
        · -- A viewer satisfies no policy but the viewers', and those handlers only read.
          have hrank : RANK required ≤ RANK .VIEWER := hviewer ▸ hentered.role
          obtain rfl := viewer_of_rank hmin hrank
          have hanswers := matches_of_dispatch hneeds.dispatched
          rw [viewer_reads handler hneeds.declares, Method.answers] at hanswers
          simpa using hanswers
        · exact open_when_locked handler (hentered.access e he hlocked)

/-- A viewer of a workspace whose trial has ended. -/
def exampleSession : Session where
  verifyToken token := if token = js "t" then
    some ⟨some (js "user_1"), none, some (js "org_1"), some (js "org:viewer"), none, none⟩ else none
  establish identity := .ok ⟨1, identity.clerkUserId, 2, identity.role.getD .VIEWER⟩
  entitlement _ := some ⟨.trial, 0, none⟩

def exampleEnv : ApiEnv := ⟨js "a secret of the relay", none⟩

/-- What the guard let a request in to. -/
def GuardState.letInTo : GuardState → Option Handler
  | .letIn _ handler _ _ => some handler
  | _ => none

theorem letIn_of_letInTo {state : GuardState} {handler : Handler} (h : state.letInTo = some handler) :
    ∃ req now via, state = .letIn req handler now via := by
  cases state with
  | letIn req handler' now via =>
      cases h
      exact ⟨req, now, via, rfl⟩
  | _ => cases h

theorem let_in_only_example : ∃ (s : System GuardShared GuardState) (req : ApiRequest) (now : Int) (via : Via),
    s.procs 0 = .letIn req .me now via ∧ dispatch req.method req.path = some .me ∧
      HasCredential exampleEnv req via ∧ via ≠ .plain := by
  let req : ApiRequest :=
    ⟨.GET, [js "me"], some (js "203.0.113.9"), none, [(js "authorization", js "Bearer t")]⟩
  have hmap : ((guard exampleEnv).run (started 5)
      [.proc 0 (.arrive req), .env (.tick 7), .proc 0 (.answered exampleSession)]).map
        (fun s => (s.procs 0).letInTo) = some (some .me) := by decide +kernel
  obtain ⟨s, hrun, hstate⟩ := Option.map_eq_some_iff.mp hmap
  obtain ⟨req', now, via, hp⟩ := letIn_of_letInTo hstate
  have hreach := (Reaches.of_run (fun _ _ _ => trivial) hrun :
    Reaches (guard exampleEnv) (fun _ _ => True) (started 5) s)
  obtain ⟨hdispatched, hcredential, hplain, -⟩ := let_in_only hreach hp
  exact ⟨s, req', now, via, hp, hdispatched, hcredential (by decide), hplain (by decide)⟩

end ESignSoft.Perimeter
