import ESignSoft.Lib.Isolation
import ESignSoft.Lib.RowSecurity
import Mathlib.Logic.Function.Basic

/-!
# One database for all workspaces

Every tenant-scoped query runs in a transaction that first sets `app.tenant_id`, for that transaction only, on a
connection borrowed from a pool; the policies of the tables compare the setting with the workspace of each row.
What a transaction has written nobody else sees before it commits.

The transactions of all workspaces interleave on the connections of the pool, statement by statement, and any of
them may be lost at any moment; statements outside a transaction run on whatever connection is free.  Out there
the program also calls the functions that run as the owner of the tables, past the policies: those that look up
whose a token, a payment or a document is, the sweeps, and the two that provide a workspace.

* `step` — the shared server, and `ownStep`, a server of one workspace's own, without policies or settings;
* `proper_step` — the setting of a connection never outlives the transaction that made it;
* `workspace_isolated` — whatever the others do, a workspace is answered as by a server of its own;
* `nothing_leaks` — what each step can show and change, of the functions past the policies too.
-/

namespace ESignSoft.Tenancy

open ESignSoft.Lib ESignSoft.Lib.RowSecurity

/-! ## The tables -/

/-- The tables with a `tenant_id` column.  `users`, which belongs to no workspace and is under no policy, is left
out. -/
inductive ScopedTable
  | memberships
  | documents
  | templates
  | signature_requests
  | recipients
  | folders
  | payments
  deriving DecidableEq

/-- A row of a table under row security; `columns` stands for the rest of it. -/
inductive TenantRow (δ : Type)
  | tenant (id : Nat) (columns : δ)
  | scoped (table : ScopedTable) (id tenantId : Nat) (columns : δ)
  deriving DecidableEq

variable {δ α : Type}

/-- What the policy `tenant_isolation` compares with the setting: `id` on `tenants`, `tenant_id` elsewhere. -/
def TenantRow.owner : TenantRow δ → Nat
  | .tenant id _ => id
  | .scoped _ _ tenantId _ => tenantId

/-- The table and the primary key. -/
def TenantRow.key : TenantRow δ → Option ScopedTable × Nat
  | .tenant id _ => (none, id)
  | .scoped table id _ _ => (some table, id)

def schema (admits : List (TenantRow δ) → List (Change (TenantRow δ)) → Bool) :
    Schema (TenantRow δ) Nat (Option ScopedTable × Nat) where
  key := TenantRow.key
  owner := TenantRow.owner
  admits := admits

/-! ## Transactions -/

/-- The callback of a transaction: what it asks next may depend on every answer so far. -/
inductive Body (δ α : Type)
  | done (result : α)
  | throw
  | query (st : Statement (TenantRow δ) Nat) (next : Answer (TenantRow δ) → Body δ α)

inductive Transaction (δ α : Type)
  /-- `SELECT set_config('app.tenant_id', tenantId, isLocal)`. -/
  | setConfig (tenantId : Nat) (isLocal : Bool) (next : Transaction δ α)
  | body (fn : Body δ α)

/-- `TenantDb.tx`: the workspace comes from the context of the request, and without one nothing is begun. -/
def tx (context : Option Nat) (fn : Body δ α) : Option (Transaction δ α) :=
  context.map fun tenantId => .setConfig tenantId true (.body fn)

/-- The worker's: the workspace comes with the job. -/
def runInTenant (tenantId : Nat) (fn : Body δ α) : Transaction δ α := .setConfig tenantId true (.body fn)

theorem tx_eq_runInTenant (tenantId : Nat) (fn : Body δ α) : tx (some tenantId) fn = some (runInTenant tenantId fn) :=
  rfl

/-! ## The shared server -/

/-- An open transaction: for whom it was begun, what it has set and written, and what is left of it. -/
structure Txn (δ α : Type) where
  tenant : Nat
  setLocal : Option Nat
  setSession : Option Nat
  writes : List (Change (TenantRow δ))
  rest : Transaction δ α

structure Connection (δ α : Type) where
  /-- `app.tenant_id` as set for the whole session. -/
  session : Option Nat
  txn : Option (Txn δ α)

/-- `current_setting('app.tenant_id', true)` inside a transaction. -/
def Connection.currentSetting (conn : Connection δ α) (txn : Txn δ α) : Option Nat :=
  txn.setLocal.or (txn.setSession.or conn.session)

def Connection.withTxn (conn : Connection δ α) (txn : Option (Txn δ α)) : Connection δ α := { conn with txn := txn }

/-- The committed rows, and the pool. -/
structure Server (δ α : Type) where
  rows : List (TenantRow δ)
  pool : Nat → Connection δ α

/-- `ensure_tenant`, `ensure_personal_tenant`, called for one organisation or user: whose row it is that the new
one would conflict with, the new one, and what becomes of the old. -/
structure Ensure (δ : Type) where
  conflicts : δ → Bool
  fresh : δ
  onConflict : δ → δ

def Ensure.names (call : Ensure δ) : TenantRow δ → Bool
  | .tenant _ columns => call.conflicts columns
  | .scoped _ _ _ _ => false

/-- `INSERT … ON CONFLICT DO UPDATE … RETURNING id`, where it returns `tenant`; the id of a new row is new. -/
def Ensure.changes (call : Ensure δ) (tenant : Nat) (rows : List (TenantRow δ)) :
    Option (List (Change (TenantRow δ))) :=
  match rows.find? call.names with
  | some (.tenant id columns) =>
      if id = tenant then some [.replace (.tenant id columns) (.tenant id (call.onConflict columns))] else none
  | some (.scoped _ _ _ _) => none
  | none =>
      if rows.any fun r => r.key == (none, tenant) then none else some [.add (.tenant tenant call.fresh)]

inductive Event (δ α : Type)
  | begin_ (tenant c : Nat) (fn : Body δ α)
  /-- The next statement of the transaction, or its end. -/
  | next (tenant c : Nat)
  /-- The transaction is lost: its connection is closed, or it runs out of time. -/
  | lost (tenant c : Nat)
  /-- A statement outside any transaction. -/
  | bare (c : Nat) (st : Statement (TenantRow δ) Nat)
  /-- A function that runs as the tables' owner and only reads: `find_personal_tenant`, `resolve_signing_token`,
  `resolve_payment`, `resolve_payment_by_txn`, `payme_statement`, `find_seal_by_hash` and the three sweeps. -/
  | lookup (c : Nat) (find : List (TenantRow δ) → List (TenantRow δ))
  /-- One that runs as the tables' owner and returns `tenant`. -/
  | ensure (tenant c : Nat) (call : Ensure δ)

inductive Reply (δ α : Type)
  | ready
  | answer (a : Answer (TenantRow δ))
  | committed (result : α)
  | rolledBack
  | found (rows : List (TenantRow δ))
  | ensured (tenant : Nat)

variable (admits : List (TenantRow δ) → List (Change (TenantRow δ)) → Bool)

def Server.setConnection (s : Server δ α) (c : Nat) (conn : Connection δ α) : Server δ α :=
  { s with pool := Function.update s.pool c conn }

/-- What the transaction would find committed if it ended now. -/
def view (rows : List (TenantRow δ)) (writes : List (Change (TenantRow δ))) : List (TenantRow δ) :=
  (schema admits).applyAll rows writes

/-- `ROLLBACK`. -/
def rollback (s : Server δ α) (c : Nat) : Server δ α × Reply δ α :=
  (s.setConnection c ((s.pool c).withTxn none), .rolledBack)

/-- `COMMIT`: what was set for the session stays, what was set locally does not. -/
def commit (s : Server δ α) (c : Nat) (txn : Txn δ α) : Server δ α :=
  { rows := view admits s.rows txn.writes,
    pool := Function.update s.pool c ⟨txn.setSession.or (s.pool c).session, none⟩ }

/-- What the next statement of an open transaction does. -/
def advance (s : Server δ α) (c : Nat) (txn : Txn δ α) : Server δ α × Reply δ α :=
  match txn.rest with
  | .setConfig tenantId true next =>
      (s.setConnection c ((s.pool c).withTxn (some { txn with setLocal := some tenantId, rest := next })), .ready)
  | .setConfig tenantId false next =>
      (s.setConnection c ((s.pool c).withTxn (some { txn with setSession := some tenantId, rest := next })), .ready)
  | .body (.done result) => (commit admits s c txn, .committed result)
  | .body .throw => rollback s c
  | .body (.query st next) =>
      match (schema admits).exec ((s.pool c).currentSetting txn) (view admits s.rows txn.writes) st with
      | none => rollback s c
      | some (a, cs) =>
          let txn := { txn with writes := txn.writes ++ cs, rest := .body (next a) }
          (s.setConnection c ((s.pool c).withTxn (some txn)), .answer a)

/-- The open transaction of a workspace on a connection. -/
def Server.openTxn (s : Server δ α) (tenant c : Nat) : Option (Txn δ α) :=
  (s.pool c).txn.filter fun txn => txn.tenant == tenant

def step (s : Server δ α) : Event δ α → Option (Server δ α × Reply δ α)
  | .begin_ tenant c fn =>
      if (s.pool c).txn.isSome then none
      else
        let txn : Txn δ α := ⟨tenant, none, none, [], runInTenant tenant fn⟩
        some (s.setConnection c ((s.pool c).withTxn (some txn)), .ready)
  | .next tenant c => (s.openTxn tenant c).map (advance admits s c)
  | .lost tenant c => (s.openTxn tenant c).map fun _ => rollback s c
  | .bare c st =>
      if (s.pool c).txn.isSome then none
      else
        match (schema admits).exec (s.pool c).session s.rows st with
        | none => some (s, .rolledBack)
        | some (a, cs) => some ({ s with rows := view admits s.rows cs }, .answer a)
  | .lookup c find => if (s.pool c).txn.isSome then none else some (s, .found (find s.rows))
  | .ensure tenant c call =>
      if (s.pool c).txn.isSome then none
      else (call.changes tenant s.rows).map fun cs => ({ s with rows := view admits s.rows cs }, .ensured tenant)

/-- The constraints do not turn on a row of another workspace: no key that is written is taken there, and no
reference leads there. -/
def keysApart (s : Server δ α) : Event δ α → Bool
  | .next tenant c =>
      match s.openTxn tenant c with
      | some ⟨_, _, _, writes, .body (.query st _)⟩ =>
          (schema admits).constraintsOwn tenant (view admits s.rows writes) st
      | _ => true
  | _ => true

/-! ## A server of one's own -/

/-- An open transaction on a server with one workspace. -/
inductive OwnTxn (δ α : Type)
  | opened (fn : Body δ α)
  | running (writes : List (Change (TenantRow δ))) (fn : Body δ α)

structure OwnServer (δ α : Type) where
  rows : List (TenantRow δ)
  txns : Nat → Option (OwnTxn δ α)

inductive OwnEvent (δ α : Type)
  | begin_ (c : Nat) (fn : Body δ α)
  | next (c : Nat)
  | lost (c : Nat)
  /-- The workspace itself is provided, or named again. -/
  | ensure (call : Ensure δ)

def OwnServer.setTxn (s : OwnServer δ α) (c : Nat) (txn : Option (OwnTxn δ α)) : OwnServer δ α :=
  { s with txns := Function.update s.txns c txn }

def ownAdvance (tenant : Nat) (s : OwnServer δ α) (c : Nat) : OwnTxn δ α → OwnServer δ α × Reply δ α
  | .opened fn => (s.setTxn c (some (.running [] fn)), .ready)
  | .running writes (.done result) =>
      ({ rows := view admits s.rows writes, txns := Function.update s.txns c none }, .committed result)
  | .running _ .throw => (s.setTxn c none, .rolledBack)
  | .running writes (.query st next) =>
      match (schema admits).execOwn tenant (view admits s.rows writes) st with
      | none => (s.setTxn c none, .rolledBack)
      | some (a, cs) => (s.setTxn c (some (.running (writes ++ cs) (next a))), .answer a)

def ownStep (tenant : Nat) (s : OwnServer δ α) : OwnEvent δ α → Option (OwnServer δ α × Reply δ α)
  | .begin_ c fn => if (s.txns c).isSome then none else some (s.setTxn c (some (.opened fn)), .ready)
  | .next c => (s.txns c).map (ownAdvance admits tenant s c)
  | .lost c => (s.txns c).map fun _ => (s.setTxn c none, .rolledBack)
  | .ensure call =>
      (call.changes tenant s.rows).map fun cs => ({ s with rows := view admits s.rows cs }, .ensured tenant)

/-! ## What a connection has set -/

/-- How far a transaction can have got: it has set its own workspace and nothing else, or nothing yet. -/
inductive Txn.Proper : Txn δ α → Prop
  | opened (tenant : Nat) (fn : Body δ α) : Proper ⟨tenant, none, none, [], runInTenant tenant fn⟩
  | running (tenant : Nat) (writes : List (Change (TenantRow δ))) (fn : Body δ α)
      (howned : (schema admits).OwnedBy tenant writes) : Proper ⟨tenant, some tenant, none, writes, .body fn⟩

structure Connection.Proper (conn : Connection δ α) : Prop where
  session : conn.session = none
  txn : ∀ txn, conn.txn = some txn → txn.Proper admits

def Proper (s : Server δ α) : Prop := ∀ c, (s.pool c).Proper admits

section

variable {admits} {s s' : Server δ α} {tenant c : Nat} {txn : Txn δ α} {e : Event δ α} {r : Reply δ α}
  {rows : List (TenantRow δ)} {cs : List (Change (TenantRow δ))} {call : Ensure δ}

theorem openTxn_eq_some : s.openTxn tenant c = some txn ↔ (s.pool c).txn = some txn ∧ txn.tenant = tenant := by
  unfold Server.openTxn
  rw [Option.filter_eq_some_iff, beq_iff_eq]

theorem proper_setConnection {conn : Connection δ α} (h : Proper admits s) (hconn : conn.Proper admits) :
    Proper admits (s.setConnection c conn) := by
  intro c'
  unfold Server.setConnection
  by_cases hc : c' = c
  · subst hc
    simpa using hconn
  · simpa [hc] using h c'

theorem proper_idle (h : Proper admits s) (c : Nat) : ((s.pool c).withTxn none).Proper admits where
  session := (h c).session
  txn := by
    rintro txn ⟨⟩

theorem proper_rollback (h : Proper admits s) (c : Nat) : Proper admits (rollback s c).1 :=
  proper_setConnection h (proper_idle h c)

theorem proper_open (h : Proper admits s) (c : Nat) (htxn : txn.Proper admits) :
    ((s.pool c).withTxn (some txn)).Proper admits where
  session := (h c).session
  txn := by
    intro txn' htxn'
    obtain rfl := Option.some.inj htxn'
    exact htxn

/-- Inside a transaction that has set its workspace, that is the setting. -/
theorem currentSetting_running {conn : Connection δ α} (tenant : Nat) (writes : List (Change (TenantRow δ)))
    (rest : Transaction δ α) : conn.currentSetting ⟨tenant, some tenant, none, writes, rest⟩ = some tenant := rfl

/-- A statement outside a transaction is answered as by an empty database, and changes nothing. -/
theorem step_bare {st : Statement (TenantRow δ) Nat} (hsession : (s.pool c).session = none)
    (hstep : step admits s (.bare c st) = some (s', r)) :
    s' = s ∧ r = ((Schema.blank st).map Reply.answer).getD .rolledBack := by
  simp only [step, hsession, Schema.exec_none] at hstep
  split at hstep
  · cases hstep
  · cases hblank : Schema.blank (ρ := TenantRow δ) (τ := Nat) st with
    | none =>
        rw [hblank] at hstep
        cases hstep
        exact ⟨rfl, rfl⟩
    | some a =>
        rw [hblank] at hstep
        cases hstep
        exact ⟨rfl, rfl⟩

theorem step_lookup {find : List (TenantRow δ) → List (TenantRow δ)}
    (hstep : step admits s (.lookup c find) = some (s', r)) :
    (s.pool c).txn = none ∧ r = .found (find s.rows) ∧ s' = s := by
  simp only [step] at hstep
  split at hstep
  · cases hstep
  · rename_i hfree
    cases hstep
    exact ⟨by simpa using hfree, rfl, rfl⟩

theorem step_ensure (hstep : step admits s (.ensure tenant c call) = some (s', r)) :
    ∃ cs, (s.pool c).txn = none ∧ call.changes tenant s.rows = some cs ∧ r = .ensured tenant ∧
      s' = { s with rows := view admits s.rows cs } := by
  simp only [step] at hstep
  split at hstep
  · cases hstep
  · rename_i hfree
    obtain ⟨cs, hcs, hpair⟩ := Option.map_eq_some_iff.mp hstep
    cases hpair
    exact ⟨cs, by simpa using hfree, hcs, rfl, rfl⟩

/-- **No step leaves a connection with a setting of its own**, and inside a transaction it is the workspace the
transaction was begun for. -/
theorem proper_step (h : Proper admits s) (hstep : step admits s e = some (s', r)) : Proper admits s' := by
  cases e with
  | begin_ tenant c fn =>
      simp only [step] at hstep
      split at hstep
      · cases hstep
      · cases hstep
        exact proper_setConnection h (proper_open h c (.opened tenant fn))
  | lost tenant c =>
      obtain ⟨txn, -, hroll⟩ := Option.map_eq_some_iff.mp hstep
      cases hroll
      exact proper_rollback h c
  | bare c st =>
      obtain ⟨rfl, -⟩ := step_bare (h c).session hstep
      exact h
  | lookup c find =>
      obtain ⟨-, -, rfl⟩ := step_lookup hstep
      exact h
  | ensure tenant c call =>
      obtain ⟨cs, -, -, -, rfl⟩ := step_ensure hstep
      exact h
  | next tenant c =>
      obtain ⟨txn, htxn, hadvance⟩ := Option.map_eq_some_iff.mp hstep
      obtain ⟨hopen, -⟩ := openTxn_eq_some.mp htxn
      have hproper := (h c).txn txn hopen
      cases hproper with
      | opened tenant' fn =>
          cases hadvance
          exact proper_setConnection h (proper_open h c (.running tenant' [] fn fun c hc => by cases hc))
      | running tenant' writes fn howned =>
          cases fn with
          | done result =>
              cases hadvance
              refine proper_setConnection (s := ⟨view admits s.rows writes, s.pool⟩) h ⟨(h c).session, ?_⟩
              intro txn htxn
              cases htxn
          | throw =>
              cases hadvance
              exact proper_rollback h c
          | query st next =>
              simp only [advance, currentSetting_running] at hadvance
              split at hadvance
              · cases hadvance
                exact proper_rollback h c
              · rename_i a cs hexec
                cases hadvance
                refine proper_setConnection h (proper_open h c (.running tenant' _ (next a) ?_))
                -- What the statement changes is added to what was written before.
                intro change hchange
                rcases List.mem_append.mp hchange with hbefore | hnow
                · exact howned change hbefore
                · exact Schema.ownedBy_of_exec hexec change hnow

/-! ## What a workspace sees -/

/-- The callback of a transaction. -/
def Transaction.fn : Transaction δ α → Body δ α
  | .setConfig _ _ next => next.fn
  | .body fn => fn

def Txn.own (txn : Txn δ α) : OwnTxn δ α :=
  match txn.rest with
  | .setConfig _ _ next => .opened next.fn
  | .body fn => .running txn.writes fn

variable (admits) in
/-- The rows and the open transactions of one workspace. -/
def project (tenant : Nat) (s : Server δ α) : OwnServer δ α where
  rows := s.rows.filter ((schema admits).own tenant)
  txns c := (s.openTxn tenant c).map Txn.own

/-- The events of one workspace. -/
def Event.of (tenant : Nat) : Event δ α → Option (OwnEvent δ α)
  | .begin_ t c fn => if t = tenant then some (.begin_ c fn) else none
  | .next t c => if t = tenant then some (.next c) else none
  | .lost t c => if t = tenant then some (.lost c) else none
  | .bare _ _ => none
  | .lookup _ _ => none
  | .ensure t _ call => if t = tenant then some (.ensure call) else none

theorem txns_project (tenant c : Nat) : (project admits tenant s).txns c = (s.openTxn tenant c).map Txn.own := rfl

theorem openTxn_none (h : (s.pool c).txn = none) (tenant : Nat) : s.openTxn tenant c = none := by
  unfold Server.openTxn
  rw [h]
  rfl

/-- A connection is in one transaction at a time. -/
theorem openTxn_other {tenant' : Nat} (h : s.openTxn tenant' c = some txn) (hne : tenant' ≠ tenant) :
    s.openTxn tenant c = none := by
  obtain ⟨hopen, htenant⟩ := openTxn_eq_some.mp h
  unfold Server.openTxn
  rw [hopen, Option.filter_some, if_neg]
  rw [beq_iff_eq, htenant]
  exact hne

/-- The transaction of a workspace that a connection is in. -/
def Connection.of (tenant : Nat) (conn : Connection δ α) : Option (Txn δ α) :=
  conn.txn.filter fun txn => txn.tenant == tenant

theorem project_setConnection (tenant c : Nat) (conn : Connection δ α) :
    project admits tenant (s.setConnection c conn) =
      (project admits tenant s).setTxn c ((conn.of tenant).map Txn.own) := by
  unfold project OwnServer.setTxn
  rw [OwnServer.mk.injEq]
  refine ⟨rfl, funext fun c' => ?_⟩
  by_cases hc : c' = c
  · subst hc
    simp [Server.openTxn, Server.setConnection, Connection.of]
  · simp [Server.openTxn, Server.setConnection, hc]

/-- What happens on a connection that was not in a transaction of the workspace, and is in none then, it does not
notice. -/
theorem project_setConnection_other {conn : Connection δ α} (h : s.openTxn tenant c = none)
    (hconn : conn.of tenant = none) : project admits tenant (s.setConnection c conn) = project admits tenant s := by
  rw [project_setConnection, hconn]
  unfold OwnServer.setTxn
  have hnone : (project admits tenant s).txns c = none := by rw [txns_project, h, Option.map_none]
  rw [Option.map_none, ← hnone, Function.update_eq_self]

theorem of_withTxn_none (conn : Connection δ α) (tenant : Nat) : (conn.withTxn none).of tenant = none := rfl

theorem of_withTxn_self (conn : Connection δ α) (txn : Txn δ α) :
    (conn.withTxn (some txn)).of txn.tenant = some txn := by
  unfold Connection.of Connection.withTxn
  rw [Option.filter_some, if_pos (beq_self_eq_true _)]

theorem of_withTxn_other (conn : Connection δ α) (hne : txn.tenant ≠ tenant) :
    (conn.withTxn (some txn)).of tenant = none := by
  unfold Connection.of Connection.withTxn
  rw [Option.filter_some, if_neg (by simpa using hne)]

theorem project_rollback_own (tenant c : Nat) :
    project admits tenant (rollback s c).1 = (project admits tenant s).setTxn c none := by
  unfold rollback
  rw [project_setConnection, of_withTxn_none, Option.map_none]

theorem project_rollback_other (h : s.openTxn tenant c = none) :
    project admits tenant (rollback s c).1 = project admits tenant s :=
  project_setConnection_other h (of_withTxn_none _ _)

/-- What is written of a workspace's rows is written of them on its own server. -/
theorem project_view_own (howned : (schema admits).OwnedBy tenant cs) :
    project admits tenant { s with rows := view admits s.rows cs } =
      { project admits tenant s with rows := view admits (project admits tenant s).rows cs } := by
  unfold project
  rw [OwnServer.mk.injEq]
  exact ⟨Schema.filter_applyAll_own howned s.rows, rfl⟩

theorem project_view_other {tenant' : Nat} (howned : (schema admits).OwnedBy tenant' cs) (hne : tenant' ≠ tenant) :
    project admits tenant { s with rows := view admits s.rows cs } = project admits tenant s := by
  unfold project
  rw [OwnServer.mk.injEq]
  exact ⟨Schema.filter_applyAll_other howned hne.symm s.rows, rfl⟩

/-- The rows of a workspace after its own transaction has committed. -/
theorem project_commit_own {writes : List (Change (TenantRow δ))} (howned : (schema admits).OwnedBy tenant writes)
    (rest : Transaction δ α) :
    project admits tenant (commit admits s c ⟨tenant, some tenant, none, writes, rest⟩) =
      { rows := view admits (project admits tenant s).rows writes,
        txns := Function.update (project admits tenant s).txns c none } := by
  have hpool : project admits tenant (commit admits s c ⟨tenant, some tenant, none, writes, rest⟩) =
      project admits tenant
        (Server.setConnection { s with rows := view admits s.rows writes } c ((s.pool c).withTxn none)) := rfl
  rw [hpool, project_setConnection, of_withTxn_none, project_view_own howned]
  rfl

theorem project_commit_other {tenant' : Nat} {writes : List (Change (TenantRow δ))}
    (howned : (schema admits).OwnedBy tenant' writes) (hne : tenant' ≠ tenant) (h : s.openTxn tenant c = none)
    (rest : Transaction δ α) :
    project admits tenant (commit admits s c ⟨tenant', some tenant', none, writes, rest⟩) =
      project admits tenant s := by
  have hrows : project admits tenant { s with rows := view admits s.rows writes } = project admits tenant s :=
    project_view_other howned hne
  rw [← hrows]
  exact project_setConnection_other (s := ⟨view admits s.rows writes, s.pool⟩) h (of_withTxn_none _ _)

/-- A transaction of the workspace's own goes on as it would on its own server. -/
theorem project_advance_own (hproper : txn.Proper admits) (hopen : s.openTxn tenant c = some txn)
    (hkeys : keysApart admits s (.next tenant c) = true) :
    ownAdvance admits tenant (project admits tenant s) c txn.own =
      (project admits tenant (advance admits s c txn).1, (advance admits s c txn).2) := by
  obtain ⟨-, htenant⟩ := openTxn_eq_some.mp hopen
  cases hproper with
  | opened tenant' fn =>
      obtain rfl : tenant' = tenant := htenant
      rw [Prod.ext_iff]
      refine ⟨?_, rfl⟩
      show _ = project admits tenant' (s.setConnection c _)
      rw [project_setConnection]
      have hof := of_withTxn_self (s.pool c) ⟨tenant', some tenant', none, [], .body fn⟩
      exact congrArg (fun t => (project admits tenant' s).setTxn c (t.map Txn.own)) hof.symm
  | running tenant' writes fn howned =>
      obtain rfl : tenant' = tenant := htenant
      cases fn with
      | done result =>
          rw [Prod.ext_iff]
          exact ⟨(project_commit_own howned _).symm, rfl⟩
      | throw =>
          rw [Prod.ext_iff]
          exact ⟨(project_rollback_own tenant' c).symm, rfl⟩
      | query st next =>
          simp only [keysApart, hopen] at hkeys
          have hexec := Schema.exec_eq_execOwn hkeys
          have hview : (view admits s.rows writes).filter ((schema admits).own tenant') =
              view admits (project admits tenant' s).rows writes := Schema.filter_applyAll_own howned s.rows
          rw [hview] at hexec
          simp only [advance, ownAdvance, Txn.own, currentSetting_running, hexec]
          cases (schema admits).execOwn tenant' (view admits (project admits tenant' s).rows writes) st with
          | none =>
              rw [Prod.ext_iff]
              exact ⟨(project_rollback_own tenant' c).symm, rfl⟩
          | some result =>
              rw [Prod.ext_iff]
              refine ⟨?_, rfl⟩
              rw [project_setConnection]
              have hof := of_withTxn_self (s.pool c)
                ⟨tenant', some tenant', none, writes ++ result.2, .body (next result.1)⟩
              exact congrArg (fun t => (project admits tenant' s).setTxn c (t.map Txn.own)) hof.symm

/-- A transaction of another workspace goes on unnoticed. -/
theorem project_advance_other {tenant' : Nat} (hproper : txn.Proper admits) (hopen : s.openTxn tenant' c = some txn)
    (hne : tenant' ≠ tenant) : project admits tenant (advance admits s c txn).1 = project admits tenant s := by
  have hclosed := openTxn_other hopen hne
  obtain ⟨-, htenant⟩ := openTxn_eq_some.mp hopen
  cases hproper with
  | opened tenant'' fn =>
      obtain rfl : tenant'' = tenant' := htenant
      exact project_setConnection_other hclosed (of_withTxn_other _ hne)
  | running tenant'' writes fn howned =>
      obtain rfl : tenant'' = tenant' := htenant
      cases fn with
      | done result => exact project_commit_other howned hne hclosed _
      | throw => exact project_rollback_other hclosed
      | query st next =>
          simp only [advance, currentSetting_running]
          split
          · exact project_rollback_other hclosed
          · exact project_setConnection_other hclosed (of_withTxn_other _ hne)

theorem step_begin {fn : Body δ α} {t : Server δ α × Reply δ α} (hstep : step admits s (.begin_ tenant c fn) = some t) :
    (s.pool c).txn = none ∧
      (s.setConnection c ((s.pool c).withTxn (some ⟨tenant, none, none, [], runInTenant tenant fn⟩)), .ready) = t := by
  simp only [step] at hstep
  split at hstep
  · cases hstep
  · rename_i hfree
    exact ⟨by simpa using hfree, Option.some.inj hstep⟩

/-! ## Providing a workspace -/

/-- What is changed is the one row of `tenants` with that id. -/
theorem change_of_ensure (h : call.changes tenant rows = some cs) :
    ∃ change, cs = [change] ∧ (change = .add (.tenant tenant call.fresh) ∨
      ∃ columns, change = .replace (.tenant tenant columns) (.tenant tenant (call.onConflict columns))) := by
  unfold Ensure.changes at h
  split at h
  · rename_i id columns _
    split at h
    · rename_i hid
      subst hid
      exact ⟨_, (Option.some.inj h).symm, Or.inr ⟨columns, rfl⟩⟩
    · cases h
  · cases h
  · split at h
    · cases h
    · exact ⟨_, (Option.some.inj h).symm, Or.inl rfl⟩

theorem ownedBy_of_ensure (h : call.changes tenant rows = some cs) : (schema admits).OwnedBy tenant cs := by
  obtain ⟨change, rfl, hchange⟩ := change_of_ensure h
  intro c hc
  obtain rfl := List.mem_singleton.mp hc
  rcases hchange with rfl | ⟨columns, rfl⟩
  · exact rfl
  · exact ⟨rfl, rfl⟩

/-- The row that conflicts is one of `tenants`. -/
theorem tenant_of_names {row : TenantRow δ} (h : call.names row = true) : ∃ id columns, row = .tenant id columns := by
  rcases row with ⟨id, columns⟩ | ⟨table, id, tenantId, columns⟩
  · exact ⟨id, columns, rfl⟩
  · cases h

theorem find_filter {p q : TenantRow δ → Bool} {row : TenantRow δ} (h : rows.find? q = some row) (hrow : p row = true) :
    (rows.filter p).find? q = some row := by
  rw [List.find?_filter]
  obtain ⟨hq, before, after, hrows, hbefore⟩ := List.find?_eq_some_iff_append.mp h
  refine List.find?_eq_some_iff_append.mpr ⟨by simp [hq, hrow], before, after, hrows, fun r hr => ?_⟩
  have hnot := hbefore r hr
  simp_all

/-- A workspace alone is provided as it is among the others. -/
theorem changes_filter_own (h : call.changes tenant rows = some cs) :
    call.changes tenant (rows.filter ((schema admits).own tenant)) = some cs := by
  unfold Ensure.changes at h ⊢
  cases hfind : rows.find? call.names with
  | none =>
      rw [hfind] at h
      dsimp only at h
      have hnone : (rows.filter ((schema admits).own tenant)).find? call.names = none := by
        rw [List.find?_eq_none] at hfind ⊢
        exact fun r hr => hfind r (List.mem_of_mem_filter hr)
      rw [hnone]
      dsimp only
      split at h
      · cases h
      · rename_i hnew
        rw [if_neg, h]
        intro hany
        obtain ⟨r, hr, hkey⟩ := List.any_eq_true.mp hany
        exact hnew (List.any_eq_true.mpr ⟨r, List.mem_of_mem_filter hr, hkey⟩)
  | some row =>
      rw [hfind] at h
      obtain ⟨id, columns, rfl⟩ := tenant_of_names (List.find?_some hfind)
      dsimp only at h
      split at h
      · rename_i hid
        subst hid
        have hown : (schema admits).own id (.tenant id columns) = true := beq_self_eq_true id
        rw [find_filter hfind hown]
        simp only [if_true, h]
      · cases h

/-- **Each workspace has the server to itself**: what it asks is answered as on a server of its own, and nothing
else that happens reaches it. -/
def isolates (admits : List (TenantRow δ) → List (Change (TenantRow δ)) → Bool) (tenant : Nat) :
    Isolates (step (α := α) admits) (fun s e => keysApart admits s e = true) (ownStep admits tenant) where
  proj := project admits tenant
  of := Event.of tenant
  inv := Proper admits
  keeps s e t o hs _ hstep := proper_step hs hstep
  mine := by
    intro s e e' t o hs hkeys hof hstep
    cases e with
    | bare c st => cases hof
    | lookup c find => cases hof
    | ensure tenant' c call =>
        simp only [Event.of] at hof
        split at hof
        · rename_i htenant
          subst htenant
          cases hof
          obtain ⟨cs, -, hcs, rfl, rfl⟩ := step_ensure hstep
          have hown : call.changes tenant' (project admits tenant' s).rows = some cs := changes_filter_own hcs
          simp only [ownStep, hown, Option.map_some, project_view_own (ownedBy_of_ensure hcs)]
        · cases hof
    | begin_ tenant' c fn =>
        simp only [Event.of] at hof
        split at hof
        · rename_i htenant
          subst htenant
          cases hof
          obtain ⟨hfree, htxn⟩ := step_begin hstep
          have hnone : (project admits tenant' s).txns c = none := by
            rw [txns_project, openTxn_none hfree, Option.map_none]
          cases htxn
          simp only [ownStep, hnone, Option.isSome_none, Bool.false_eq_true, if_false, Option.some.injEq,
            Prod.mk.injEq, and_true]
          rw [project_setConnection, of_withTxn_self (s.pool c) ⟨tenant', none, none, [], runInTenant tenant' fn⟩]
          rfl
        · cases hof
    | next tenant' c =>
        simp only [Event.of] at hof
        split at hof
        · rename_i htenant
          subst htenant
          cases hof
          obtain ⟨txn, hopen, hadvance⟩ := Option.map_eq_some_iff.mp hstep
          have hproper := (hs c).txn txn (openTxn_eq_some.mp hopen).1
          simp only [ownStep, txns_project, hopen, Option.map_some, project_advance_own hproper hopen hkeys,
            hadvance]
        · cases hof
    | lost tenant' c =>
        simp only [Event.of] at hof
        split at hof
        · rename_i htenant
          subst htenant
          cases hof
          obtain ⟨txn, hopen, hroll⟩ := Option.map_eq_some_iff.mp hstep
          cases hroll
          simp only [ownStep, txns_project, hopen, Option.map_some]
          rw [← project_rollback_own]
          rfl
        · cases hof
  others := by
    intro s e t o hs _ hof hstep
    cases e with
    | bare c st =>
        obtain ⟨rfl, -⟩ := step_bare (hs c).session hstep
        rfl
    | lookup c find =>
        obtain ⟨-, -, rfl⟩ := step_lookup hstep
        rfl
    | ensure tenant' c call =>
        have hne : tenant' ≠ tenant := by
          rintro rfl
          simp [Event.of] at hof
        obtain ⟨cs, -, hcs, -, rfl⟩ := step_ensure hstep
        exact project_view_other (ownedBy_of_ensure hcs) hne
    | begin_ tenant' c fn =>
        have hne : tenant' ≠ tenant := by
          rintro rfl
          simp [Event.of] at hof
        obtain ⟨hfree, htxn⟩ := step_begin hstep
        cases htxn
        exact project_setConnection_other (openTxn_none hfree tenant) (of_withTxn_other _ hne)
    | next tenant' c =>
        have hne : tenant' ≠ tenant := by
          rintro rfl
          simp [Event.of] at hof
        obtain ⟨txn, hopen, hadvance⟩ := Option.map_eq_some_iff.mp hstep
        have hproper := (hs c).txn txn (openTxn_eq_some.mp hopen).1
        have hsame := project_advance_other hproper hopen hne
        rwa [hadvance] at hsame
    | lost tenant' c =>
        have hne : tenant' ≠ tenant := by
          rintro rfl
          simp [Event.of] at hof
        obtain ⟨txn, hopen, hroll⟩ := Option.map_eq_some_iff.mp hstep
        cases hroll
        exact project_rollback_other (openTxn_other hopen hne)

/-- A pool none of whose connections is in use. -/
def Server.Idle (s : Server δ α) : Prop := ∀ c, s.pool c = ⟨none, none⟩

theorem Server.Idle.proper (h : s.Idle) : Proper admits s := by
  intro c
  rw [h c]
  exact ⟨rfl, by rintro txn ⟨⟩⟩

/-- **Each workspace is answered as by a server of its own.**  Whatever transactions of other workspaces ran on the
pool in between, whichever were lost, and whatever was asked outside a transaction, past the policies too: what the
workspace asked and was answered, and how it was provided, is a run of its own server, from its rows at the start to
its rows at the end. -/
theorem workspace_isolated {log : List (Event δ α × Reply δ α)} (hidle : s.Idle)
    (hrun : Transcript (step admits) (fun s e => keysApart admits s e = true) s log s') (tenant : Nat) :
    Transcript (ownStep admits tenant) (fun _ _ => True) (project admits tenant s)
      (concerning (Event.of tenant) log) (project admits tenant s') :=
  (isolates admits tenant).transcript hrun hidle.proper

/-! ## What a statement can find -/

/-- What an answer may show: inside a transaction rows of its own workspace, outside of one nothing at all under the
policies, and of the functions past them those that write nothing but the id of the workspace. -/
def Shown : Event δ α × Reply δ α → Prop
  | (.next tenant _, .answer (.rows found)) => ∀ r ∈ found, r.owner = tenant
  | (.bare _ st, reply) => reply = ((Schema.blank st).map Reply.answer).getD .rolledBack
  | (.ensure tenant _ _, reply) => reply = .ensured tenant
  | _ => True

/-- The rows an event may write: its own workspace's in a transaction, one row of `tenants` where a workspace is
provided, otherwise none. -/
def Event.mayWrite : Event δ α → TenantRow δ → Bool
  | .next tenant _, r => r.owner == tenant
  | .ensure tenant _ _, r => r.key == (none, tenant)
  | _, _ => false

/-- Every other row stays as it is. -/
def WritesWithin (e : Event δ α) (s s' : Server δ α) : Prop :=
  s'.rows.filter (fun r => !e.mayWrite r) = s.rows.filter (fun r => !e.mayWrite r)

theorem writesWithin_of_rows (h : s'.rows = s.rows) (e : Event δ α) : WritesWithin e s s' := by
  unfold WritesWithin
  rw [h]

/-- Providing a workspace writes the one row of `tenants`. -/
theorem spares_of_ensure (h : call.changes tenant rows = some cs) (c : Change (TenantRow δ)) (hc : c ∈ cs) :
    Schema.Change.Spares (schema admits) (fun r => !(r.key == (none, tenant))) c := by
  obtain ⟨change, rfl, hchange⟩ := change_of_ensure h
  obtain rfl := List.mem_singleton.mp hc
  have hwritten : ∀ r : TenantRow δ, r.key = (none, tenant) → (!(r.key == (none, tenant))) = false := by
    intro r hr
    simp [hr]
  rcases hchange with rfl | ⟨columns, rfl⟩
  · exact hwritten _ rfl
  · refine ⟨fun r hsame => hwritten r ?_, hwritten _ rfl⟩
    have hkey : r.key = (none, tenant) ∧ r.owner = tenant := by
      simpa [Schema.same, schema, TenantRow.key, TenantRow.owner] using hsame
    exact hkey.1

/-- **What one step writes** is within the rows the event may write. -/
theorem writesWithin_step (h : Proper admits s) (hstep : step admits s e = some (s', r)) : WritesWithin e s s' := by
  cases e with
  | begin_ tenant c fn =>
      obtain ⟨-, hpair⟩ := step_begin hstep
      cases hpair
      exact writesWithin_of_rows rfl _
  | lost tenant c =>
      obtain ⟨txn, -, hroll⟩ := Option.map_eq_some_iff.mp hstep
      cases hroll
      exact writesWithin_of_rows rfl _
  | bare c st =>
      obtain ⟨rfl, -⟩ := step_bare (h c).session hstep
      exact writesWithin_of_rows rfl _
  | lookup c find =>
      obtain ⟨-, -, rfl⟩ := step_lookup hstep
      exact writesWithin_of_rows rfl _
  | ensure tenant c call =>
      obtain ⟨cs, -, hcs, -, rfl⟩ := step_ensure hstep
      exact Schema.filter_applyAll_of_spares (spares_of_ensure hcs) s.rows
  | next tenant c =>
      obtain ⟨txn, hopen, hadvance⟩ := Option.map_eq_some_iff.mp hstep
      obtain ⟨hconn, htenant⟩ := openTxn_eq_some.mp hopen
      cases (h c).txn txn hconn with
      | opened tenant' fn =>
          cases hadvance
          exact writesWithin_of_rows rfl _
      | running tenant' writes fn howned =>
          obtain rfl : tenant' = tenant := htenant
          cases fn with
          | done result =>
              -- The rows that are committed are the workspace's own.
              cases hadvance
              refine Schema.filter_applyAll_of_spares (fun c hc => Schema.spares_of_ownedBy (howned c hc) ?_) s.rows
              intro r hr
              have howner : r.owner = tenant' := hr
              simp [Event.mayWrite, howner]
          | throw =>
              cases hadvance
              exact writesWithin_of_rows rfl _
          | query st next =>
              simp only [advance, currentSetting_running] at hadvance
              split at hadvance
              · cases hadvance
                exact writesWithin_of_rows rfl _
              · cases hadvance
                exact writesWithin_of_rows rfl _

theorem shown_step (h : Proper admits s) (hstep : step admits s e = some (s', r)) : Shown (e, r) := by
  cases e with
  | begin_ tenant c fn => trivial
  | lost tenant c => trivial
  | bare c st => exact (step_bare (h c).session hstep).2
  | lookup c find => trivial
  | ensure tenant c call =>
      obtain ⟨cs, -, -, hr, -⟩ := step_ensure hstep
      exact hr
  | next tenant c =>
      obtain ⟨txn, hopen, hadvance⟩ := Option.map_eq_some_iff.mp hstep
      obtain ⟨hconn, htenant⟩ := openTxn_eq_some.mp hopen
      cases (h c).txn txn hconn with
      | opened tenant' fn =>
          cases hadvance
          trivial
      | running tenant' writes fn howned =>
          obtain rfl : tenant' = tenant := htenant
          cases fn with
          | done result =>
              cases hadvance
              trivial
          | throw =>
              cases hadvance
              trivial
          | query st next =>
              simp only [advance, currentSetting_running] at hadvance
              split at hadvance
              · cases hadvance
                trivial
              · rename_i a cs hexec
                cases hadvance
                cases a with
                | count n => trivial
                | rows found => exact Schema.owner_of_rows hexec

/-- **Fail closed.**  In every state a run from an idle pool comes to, whatever the constraints do: no connection has
a setting but inside a transaction, and there its own; and whatever is asked next, a transaction is shown rows of its
own workspace only and writes no others, a statement under the policies outside a transaction is answered as by an
empty database and writes nothing, and of the functions past the policies those that look something up write nothing,
and those that provide a workspace write its one row and show its id. -/
theorem nothing_leaks {log : List (Event δ α × Reply δ α)} (hidle : s.Idle)
    (hrun : Transcript (step admits) (fun _ _ => True) s log s') :
    (∀ e t r, step admits s' e = some (t, r) → Shown (e, r) ∧ WritesWithin e s' t) ∧
      ∀ c, (s'.pool c).session = none ∧ ∀ txn, (s'.pool c).txn = some txn →
        (s'.pool c).currentSetting txn = none ∨ (s'.pool c).currentSetting txn = some txn.tenant := by
  have hkeeps : ∀ (s : Server δ α) e t o, Proper admits s → True → step admits s e = some (t, o) → Proper admits t :=
    fun s e t o hs _ hstep => proper_step hs hstep
  have hproper : Proper admits s' := hrun.invariant hkeeps hidle.proper
  refine ⟨fun e t r hstep => ⟨shown_step hproper hstep, writesWithin_step hproper hstep⟩, fun c => ?_⟩
  refine ⟨(hproper c).session, fun txn htxn => ?_⟩
  cases (hproper c).txn txn htxn with
  | opened tenant fn => exact .inl (hproper c).session
  | running tenant writes fn howned => exact .inr rfl

end

/-! ## Two workspaces on two connections -/

/-- Primary keys are unique, over the tables of all workspaces. -/
def primaryKeys (rows : List (TenantRow Nat)) (cs : List (Change (TenantRow Nat))) : Bool :=
  cs.all fun change =>
    match change with
    | .add row => rows.all fun r => r.key != row.key
    | _ => true

def exampleServer : Server Nat Nat where
  rows := [.tenant 1 100, .tenant 2 200, .scoped .documents 10 1 7, .scoped .documents 20 2 8]
  pool := fun _ => ⟨none, none⟩

/-- Adds a document, and counts what documents there are. -/
def addDocument (docId : Nat) : Body Nat Nat :=
  .query (.insert fun tenantId => .scoped .documents docId tenantId 0) fun _ =>
    .query (.update (fun r => r.key.1 == some .documents) id) fun
      | .count n => .done n
      | .rows _ => .throw

/-- The row of an organisation has its number in front, and then how often it was named. -/
def exampleEnsure (org : Nat) : Ensure Nat := ⟨fun n => n / 100 == org, org * 100, fun n => n + 1⟩

/-- The first workspace adds a document and commits while the second is under way; the second is lost.  Meanwhile the
first is named again and a third is provided. -/
def exampleEvents : List (Event Nat Nat) :=
  [.begin_ 1 0 (addDocument 11), .begin_ 2 1 (addDocument 21), .next 2 1, .next 1 0, .next 2 1, .next 1 0,
    .bare 2 (.select fun _ => true), .lookup 2 fun rows => rows.filter fun r => r.key == (some .documents, 20),
    .ensure 1 2 (exampleEnsure 1), .next 1 0, .next 1 0, .ensure 3 2 (exampleEnsure 3), .lost 2 1]

/-- The first workspace ends up with its new name and the row it added, the second with what it had. -/
example : (replay (step primaryKeys) (keysApart primaryKeys) exampleServer exampleEvents).map (fun r => r.2.rows) =
    some [.tenant 1 101, .tenant 2 200, .scoped .documents 10 1 7, .scoped .documents 20 2 8,
      .scoped .documents 11 1 0, .tenant 3 300] := rfl

theorem workspace_isolated_example : ∃ log s', replay (step primaryKeys) (keysApart primaryKeys) exampleServer
      exampleEvents = some (log, s') ∧
    Transcript (ownStep primaryKeys 1) (fun _ _ => True) (project primaryKeys 1 exampleServer)
      (concerning (Event.of 1) log) (project primaryKeys 1 s') := by
  have hsome : (replay (step primaryKeys) (keysApart primaryKeys) exampleServer exampleEvents).isSome = true := rfl
  obtain ⟨⟨log, s'⟩, hrun⟩ := Option.isSome_iff_exists.mp hsome
  exact ⟨log, s', hrun, workspace_isolated (fun _ => rfl) (transcript_of_replay hrun) 1⟩

theorem nothing_leaks_example : ∃ log s', replay (step primaryKeys) (fun _ _ => true) exampleServer exampleEvents =
      some (log, s') ∧ (∀ e t r, step primaryKeys s' e = some (t, r) → Shown (e, r) ∧ WritesWithin e s' t) ∧
    ∀ c, (s'.pool c).session = none ∧ ∀ txn, (s'.pool c).txn = some txn →
      (s'.pool c).currentSetting txn = none ∨ (s'.pool c).currentSetting txn = some txn.tenant := by
  have hsome : (replay (step primaryKeys) (fun _ _ => true) exampleServer exampleEvents).isSome = true := rfl
  obtain ⟨⟨log, s'⟩, hrun⟩ := Option.isSome_iff_exists.mp hsome
  exact ⟨log, s', hrun, nothing_leaks (fun _ => rfl) ((transcript_of_replay hrun).mono fun _ _ _ => trivial)⟩

end ESignSoft.Tenancy
