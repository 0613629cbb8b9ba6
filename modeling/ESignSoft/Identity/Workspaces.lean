import ESignSoft.Identity.UserSync
import ESignSoft.Lib.Interleaving

/-!
# Entering a workspace

A request is let into a workspace in three statements: the workspace is found or made, the person is mirrored, the
membership is written.  The statements of any number of requests interleave; a brand-new organisation sends its
first requests at once.

* `runAlone_eq` — a request whose statements nobody comes between answers as the call does;
* `Sound`, `Grown` — what every statement keeps, and what it may change;
* `let_in_iff` — two requests are let into one workspace exactly when their sessions name one organisation, or
  neither names one and they are of one person.
-/

namespace ESignSoft.Identity

open ESignSoft.Lib.JsText ESignSoft.Lib.Table ESignSoft.Lib.Interleaving

/-! ## Requests -/

/-- Which workspace a session names. -/
inductive Workspace
  | company (clerkOrg : JsString)
  | personal (clerkUser : JsString)
  deriving DecidableEq

def Call.identity : Call → VerifiedIdentity
  | .establish identity => identity
  | .establishPersonal identity => identity

def Call.workspace : Call → Workspace
  | .establish identity =>
      match truthy identity.clerkOrgId, identity.role with
      | some clerkOrg, some _ => .company clerkOrg
      | _, _ => .personal identity.clerkUserId
  | .establishPersonal identity => .personal identity.clerkUserId

/-- The role a request is let in with. -/
def Call.role : Call → MembershipRole
  | .establish identity =>
      match truthy identity.clerkOrgId, identity.role with
      | some _, some role => role
      | _, _ => .OWNER
  | .establishPersonal _ => .OWNER

/-- How far a request has come. -/
inductive Stage
  | waiting
  /-- The workspace is there, the person is next. -/
  | ensured (call : Call) (tenantUuid : Nat)
  /-- The person is there, the personal workspace is looked up next. -/
  | upserted (call : Call) (userId : Nat)
  /-- The membership is next. -/
  | joining (call : Call) (tenantUuid userId : Nat)
  | entered (call : Call) (auth : RequestAuth)
  | failed (e : SyncError)

/-- The first statement of a request. -/
def start (call : Call) (d : Directory) : Directory × Stage :=
  match call with
  | .establish identity =>
      match truthy identity.clerkOrgId, identity.role with
      | some clerkOrg, some _ =>
          match ensure_tenant clerkOrg (identity.orgName.getD []) d with
          | .error e => (d, .failed e)
          | .ok (tenantUuid, d) => (d, .ensured call tenantUuid)
      | _, _ =>
          match upsertUser identity d with
          | .error e => (d, .failed e)
          | .ok (userId, d) => (d, .upserted call userId)
  | .establishPersonal identity =>
      match ensure_personal_tenant identity.clerkUserId (personalName identity) d with
      | .error e => (d, .failed e)
      | .ok (tenantUuid, d) => (d, .ensured call tenantUuid)

/-- The next statement of a request that has begun. -/
def proceed (d : Directory) : Stage → Option (Directory × Stage)
  | .ensured call tenantUuid =>
      match upsertUser call.identity d with
      | .error e => some (d, .failed e)
      | .ok (userId, d) => some (d, .joining call tenantUuid userId)
  | .upserted call userId =>
      match find_personal_tenant call.identity.clerkUserId d with
      | none => some (d, .failed .onboardingRequired)
      | some tenantUuid => some (d, .joining call tenantUuid userId)
  | .joining call tenantUuid userId =>
      some (upsertMembership tenantUuid userId call.role d,
        .entered call ⟨userId, call.identity.clerkUserId, tenantUuid, call.role⟩)
  | _ => none

inductive Choice
  | start (call : Call)
  | proceed

def requests : Program Directory Stage Choice Empty where
  act _ choice d stage :=
    match choice, stage with
    | .start call, .waiting => some (Identity.start call d)
    | .proceed, stage => Identity.proceed d stage
    | _, _ => none
  env e _ := e.elim

/-! ## Alone -/

/-- A request none of whose statements anybody comes between. -/
def runAlone (call : Call) (d : Directory) : Directory × Stage :=
  let go (r : Directory × Stage) : Directory × Stage := (proceed r.1 r.2).getD r
  go (go (start call d))

def Call.answer : Call → Directory → Answer
  | .establish identity => Identity.establish identity
  | .establishPersonal identity => Identity.establishPersonal identity

/-- How a request ends. -/
def Stage.result : Stage → Option (Except SyncError RequestAuth)
  | .entered _ auth => some (.ok auth)
  | .failed e => some (.error e)
  | _ => none

/-- **Alone, a request answers as the call does**, and leaves the same tables behind. -/
theorem runAlone_eq (call : Call) (d : Directory) :
    ((runAlone call d).2.result, (runAlone call d).1) = (some (call.answer d).1, (call.answer d).2) := by
  cases call with
  | establishPersonal identity =>
      simp only [runAlone, start, Call.answer, establishPersonal]
      cases ensure_personal_tenant identity.clerkUserId (personalName identity) d with
      | error e => rfl
      | ok r =>
          simp only [proceed, Call.identity, enterWithMembership]
          cases upsertUser identity r.2 with
          | error e => rfl
          | ok u => rfl
  | establish identity =>
      simp only [runAlone, start, Call.answer, establish]
      cases horg : truthy identity.clerkOrgId with
      | none =>
          simp only
          cases upsertUser identity d with
          | error e => rfl
          | ok u =>
              simp only [proceed, Call.identity, enterWithMembership]
              cases find_personal_tenant identity.clerkUserId u.2 with
              | none => rfl
              | some t => simp [Stage.result, Call.role, horg]
      | some org =>
          cases hrole : identity.role with
          | none =>
              simp only
              cases upsertUser identity d with
              | error e => rfl
              | ok u =>
                  simp only [proceed, Call.identity, enterWithMembership]
                  cases find_personal_tenant identity.clerkUserId u.2 with
                  | none => rfl
                  | some t => simp [Stage.result, Call.role, horg, hrole]
          | some role =>
              simp only
              cases ensure_tenant org (identity.orgName.getD []) d with
              | error e => rfl
              | ok r =>
                  simp only [proceed, Call.identity, enterWithMembership]
                  cases upsertUser identity r.2 with
                  | error e => rfl
                  | ok u => simp [Stage.result, Call.role, horg, hrole]

/-! ## What every statement keeps -/

/-- The two unique columns of a workspace. -/
def Tenant.key (t : Tenant) : Option JsString × Option JsString := (t.clerkOrgId, t.personalUserId)

def Workspace.key : Workspace → Option JsString × Option JsString
  | .company clerkOrg => (some clerkOrg, none)
  | .personal clerkUser => (none, some clerkUser)

def Workspace.kind : Workspace → TenantKind
  | .company _ => .company
  | .personal _ => .personal

/-- The row of a workspace. -/
structure Tenant.Of (w : Workspace) (t : Tenant) : Prop where
  key : t.key = w.key
  kind : t.kind = w.kind

theorem Workspace.key_inj {w w' : Workspace} (h : w.key = w'.key) : w = w' := by
  cases w with
  | company org =>
      cases w' with
      | company org' =>
          obtain ⟨horg, -⟩ := Prod.mk.inj h
          rw [Option.some.inj horg]
      | personal user => cases h
  | personal user =>
      cases w' with
      | company org' => cases h
      | personal user' =>
          obtain ⟨-, huser⟩ := Prod.mk.inj h
          rw [Option.some.inj huser]

/-- The pair a membership is unique for. -/
def Membership.pair (m : Membership) : Nat × Nat := (m.tenantId, m.userId)

/-- The tables as the unique columns and the statements keep them. -/
structure Sound (d : Directory) : Prop where
  tenantIds : (d.tenants.map Tenant.id).Nodup
  tenantKeys : (d.tenants.map Tenant.key).Nodup
  tenantOf : ∀ t ∈ d.tenants, ∃ w, t.Of w
  userIds : (d.users.map User.id).Nodup
  userKeys : OneRowEach d.users
  pairs : (d.memberships.map Membership.pair).Nodup
  tenantsOld : ∀ t ∈ d.tenants, t.id < d.nextId
  usersOld : ∀ u ∈ d.users, u.id < d.nextId

theorem sound_empty : Sound .empty where
  tenantIds := List.nodup_nil
  tenantKeys := List.nodup_nil
  tenantOf := by simp [Directory.empty]
  userIds := List.nodup_nil
  userKeys := List.nodup_nil
  pairs := List.nodup_nil
  tenantsOld := by simp [Directory.empty]
  usersOld := by simp [Directory.empty]

/-- The row with this id is that workspace's. -/
def Directory.Hosts (d : Directory) (tenantId : Nat) (w : Workspace) : Prop :=
  ∃ t ∈ d.tenants, t.id = tenantId ∧ t.Of w

/-- The row with this id is that person's. -/
def Directory.Knows (d : Directory) (userId : Nat) (clerkUserId : JsString) : Prop :=
  ∃ u ∈ d.users, u.id = userId ∧ u.clerkUserId = some clerkUserId

def Directory.Member (d : Directory) (tenantId userId : Nat) : Prop := ∃ m ∈ d.memberships, m.pair = (tenantId, userId)

/-- What later statements leave as it was: whose rows the ids are, and who is a member. -/
structure Grown (d d' : Directory) : Prop where
  hosts : ∀ tenantId w, d.Hosts tenantId w → d'.Hosts tenantId w
  knows : ∀ userId clerkUserId, d.Knows userId clerkUserId → d'.Knows userId clerkUserId
  member : ∀ tenantId userId, d.Member tenantId userId → d'.Member tenantId userId

theorem Grown.refl (d : Directory) : Grown d d := ⟨fun _ _ h => h, fun _ _ h => h, fun _ _ h => h⟩

/-- A row with a unique column of a workspace is the row of that workspace. -/
theorem of_of_org {d : Directory} (h : Sound d) {t : Tenant} (ht : t ∈ d.tenants) {org : JsString}
    (horg : t.clerkOrgId = some org) : t.Of (.company org) := by
  obtain ⟨w, hkey, hkind⟩ := h.tenantOf t ht
  cases w with
  | company org' =>
      obtain rfl : org' = org := by
        have hfirst := congrArg Prod.fst hkey
        exact Option.some.inj (hfirst.symm.trans horg)
      exact ⟨hkey, hkind⟩
  | personal user =>
      have hfirst := congrArg Prod.fst hkey
      cases hfirst.symm.trans horg

theorem of_of_user {d : Directory} (h : Sound d) {t : Tenant} (ht : t ∈ d.tenants) {user : JsString}
    (huser : t.personalUserId = some user) : t.Of (.personal user) := by
  obtain ⟨w, hkey, hkind⟩ := h.tenantOf t ht
  cases w with
  | company org =>
      have hsecond := congrArg Prod.snd hkey
      cases hsecond.symm.trans huser
  | personal user' =>
      obtain rfl : user' = user := by
        have hsecond := congrArg Prod.snd hkey
        exact Option.some.inj (hsecond.symm.trans huser)
      exact ⟨hkey, hkind⟩

/-! ## The workspace's statement -/

/-- What `INSERT … ON CONFLICT DO UPDATE` on one unique column does. -/
theorem ensure_spec {d : Directory} (h : Sound d) (w : Workspace) (key : Tenant → Bool) (fallback name : JsString)
    (row : Nat → JsString → Tenant) (hkey : ∀ t ∈ d.tenants, key t = true ↔ t.Of w)
    (hrow : ∀ id name, (row id name).id = id ∧ (row id name).Of w) :
    Sound (ensure key fallback name row d).2 ∧ Grown d (ensure key fallback name row d).2 ∧
      (ensure key fallback name row d).2.Hosts (ensure key fallback name row d).1 w := by
  unfold ensure
  cases hfind : d.tenants.find? key with
  | some t =>
      have ht : t ∈ d.tenants := List.mem_of_find?_eq_some hfind
      have hof : t.Of w := (hkey t ht).mp (List.find?_some hfind)
      simp only
      -- Only names are written: every row keeps its id, its unique columns and its kind.
      generalize hset : (fun r : Tenant => { r with name := if (if name = [] then fallback else name) = fallback
        then t.name else if name = [] then fallback else name }) = set
      have hid : ∀ r, (set r).id = r.id := fun r => by rw [← hset]
      have hkeys : ∀ r, (set r).key = r.key := fun r => by rw [← hset]; rfl
      have hkinds : ∀ r, (set r).kind = r.kind := fun r => by rw [← hset]
      have hof' : ∀ r w', r.Of w' → (set r).Of w' := fun r w' hr =>
        ⟨(hkeys r).trans hr.key, (hkinds r).trans hr.kind⟩
      have hhosts : ∀ tenantId w', d.Hosts tenantId w' →
          Directory.Hosts { d with tenants := updateMany key set d.tenants } tenantId w' := by
        rintro tenantId w' ⟨r, hr, hrid, hrof⟩
        refine ⟨if key r = true then set r else r, mem_updateMany.mpr ⟨r, hr, rfl⟩, ?_⟩
        split
        · exact ⟨(hid r).trans hrid, hof' r w' hrof⟩
        · exact ⟨hrid, hrof⟩
      refine ⟨?_, ⟨hhosts, fun _ _ hk => hk, fun _ _ hm => hm⟩, hhosts _ _ ⟨t, ht, rfl, hof⟩⟩
      exact
        { tenantIds := by
            show ((updateMany key set d.tenants).map Tenant.id).Nodup
            rw [map_updateMany_eq Tenant.id hid]
            exact h.tenantIds
          tenantKeys := by
            show ((updateMany key set d.tenants).map Tenant.key).Nodup
            rw [map_updateMany_eq Tenant.key hkeys]
            exact h.tenantKeys
          tenantOf := forall_mem_updateMany h.tenantOf fun r _ _ ⟨w', hr⟩ => ⟨w', hof' r w' hr⟩
          userIds := h.userIds
          userKeys := h.userKeys
          pairs := h.pairs
          tenantsOld := forall_mem_updateMany h.tenantsOld fun r _ _ hr => by rwa [hid]
          usersOld := h.usersOld }
  | none =>
      simp only
      generalize hnew : row d.nextId (if name = [] then fallback else name) = new
      obtain ⟨hid, hof⟩ := hrow d.nextId (if name = [] then fallback else name)
      rw [hnew] at hid hof
      have hnone : ∀ t ∈ d.tenants, ¬ t.Of w := fun t ht hfor =>
        List.find?_eq_none.mp hfind t ht ((hkey t ht).mpr hfor)
      refine ⟨?_, ⟨?_, fun _ _ hk => hk, fun _ _ hm => hm⟩, ⟨new, by simp, hid, hof⟩⟩
      · exact
          { tenantIds := by
              rw [List.map_append, List.map_singleton, List.nodup_append_comm, List.singleton_append, List.nodup_cons]
              refine ⟨fun hmem => ?_, h.tenantIds⟩
              obtain ⟨t, ht, heq⟩ := List.mem_map.mp hmem
              have hlt := h.tenantsOld t ht
              omega
            tenantKeys := by
              rw [List.map_append, List.map_singleton, List.nodup_append_comm, List.singleton_append, List.nodup_cons]
              refine ⟨fun hmem => ?_, h.tenantKeys⟩
              -- A row with these unique columns would be the workspace's, and there was none.
              obtain ⟨t, ht, heq⟩ := List.mem_map.mp hmem
              obtain ⟨w', hkey', hkind'⟩ := h.tenantOf t ht
              obtain rfl : w' = w := Workspace.key_inj (hkey'.symm.trans (heq.trans hof.key))
              exact hnone t ht ⟨hkey', hkind'⟩
            tenantOf := by
              intro t ht
              rcases List.mem_append.mp ht with hold | hadded
              · exact h.tenantOf t hold
              · obtain rfl := List.mem_singleton.mp hadded
                exact ⟨w, hof⟩
            userIds := h.userIds
            userKeys := h.userKeys
            pairs := h.pairs
            tenantsOld := by
              intro t ht
              show t.id < d.nextId + 1
              rcases List.mem_append.mp ht with hold | hadded
              · have hlt := h.tenantsOld t hold
                omega
              · obtain rfl := List.mem_singleton.mp hadded
                omega
            usersOld := by
              intro u hu
              show u.id < d.nextId + 1
              have hlt := h.usersOld u hu
              omega }
      · rintro tenantId w' ⟨t, ht, hrest⟩
        exact ⟨t, List.mem_append_left _ ht, hrest⟩

theorem ensure_tenant_spec {d d' : Directory} (h : Sound d) {clerkOrg orgName : JsString} {id : Nat}
    (hok : ensure_tenant clerkOrg orgName d = .ok (id, d')) :
    Sound d' ∧ Grown d d' ∧ d'.Hosts id (.company clerkOrg) := by
  unfold ensure_tenant at hok
  split at hok
  · cases hok
  · injection hok with hpair
    have hspec := ensure_spec h (.company clerkOrg) (fun t => t.clerkOrgId == some clerkOrg) (js "Workspace") orgName
      (fun id name => ⟨id, name, .company, some clerkOrg, none⟩)
      (fun t ht => ⟨fun hkey => of_of_org h ht (beq_iff_eq.mp hkey), fun hof => by
        have hfirst : t.clerkOrgId = some clerkOrg := congrArg Prod.fst hof.key
        exact beq_iff_eq.mpr hfirst⟩)
      (fun id name => ⟨rfl, rfl, rfl⟩)
    rwa [hpair] at hspec

theorem ensure_personal_tenant_spec {d d' : Directory} (h : Sound d) {clerkUser wsName : JsString} {id : Nat}
    (hok : ensure_personal_tenant clerkUser wsName d = .ok (id, d')) :
    Sound d' ∧ Grown d d' ∧ d'.Hosts id (.personal clerkUser) := by
  unfold ensure_personal_tenant at hok
  split at hok
  · cases hok
  · injection hok with hpair
    have hspec := ensure_spec h (.personal clerkUser) (fun t => t.personalUserId == some clerkUser) (js "My workspace")
      wsName (fun id name => ⟨id, name, .personal, none, some clerkUser⟩)
      (fun t ht => ⟨fun hkey => of_of_user h ht (beq_iff_eq.mp hkey), fun hof => by
        have hsecond : t.personalUserId = some clerkUser := congrArg Prod.snd hof.key
        exact beq_iff_eq.mpr hsecond⟩)
      (fun id name => ⟨rfl, rfl, rfl⟩)
    rwa [hpair] at hspec

theorem find_personal_tenant_spec {d : Directory} (h : Sound d) {clerkUser : JsString} {id : Nat}
    (hfind : find_personal_tenant clerkUser d = some id) : d.Hosts id (.personal clerkUser) := by
  obtain ⟨t, ht, rfl⟩ := Option.map_eq_some_iff.mp hfind
  have hmem : t ∈ d.tenants := List.mem_of_find?_eq_some ht
  have hkey := List.find?_some ht
  rw [Bool.and_eq_true, beq_iff_eq] at hkey
  exact ⟨t, hmem, rfl, of_of_user h hmem hkey.1⟩

/-! ## The other statements -/

/-- What mirroring a person does to the tables. -/
theorem upsertUser_grown {d d' : Directory} (h : Sound d) {identity : VerifiedIdentity} {id : Nat}
    (hok : upsertUser identity d = .ok (id, d')) :
    Sound d' ∧ Grown d d' ∧ d'.Knows id identity.clerkUserId := by
  have hkeys := (upsertUser_spec h.userKeys hok).2
  unfold upsertUser at hok
  cases hfind : d.users.find? (isOwn identity) with
  | some u =>
      have hu : u ∈ d.users := List.mem_of_find?_eq_some hfind
      have hfound : isOwn identity u = true := List.find?_some hfind
      have hown : u.clerkUserId = some identity.clerkUserId := beq_iff_eq.mp hfound
      rw [hfind] at hok
      simp only at hok
      split at hok
      · cases hok
        exact ⟨h, Grown.refl d, u, hu, rfl, hown⟩
      · rename_i email _
        split at hok
        · cases hok
        · cases hok
          have hkeep : ∀ userId clerkUserId, d.Knows userId clerkUserId → Directory.Knows
              { d with users := updateMany (isOwn identity) (fun v => { v with email := email }) d.users }
              userId clerkUserId := by
            rintro userId clerkUserId ⟨v, hv, hid, hclerk⟩
            refine ⟨if isOwn identity v = true then { v with email := email } else v,
              mem_updateMany.mpr ⟨v, hv, rfl⟩, ?_⟩
            split
            · exact ⟨hid, hclerk⟩
            · exact ⟨hid, hclerk⟩
          refine ⟨?_, ⟨fun _ _ hh => hh, hkeep, fun _ _ hm => hm⟩, hkeep _ _ ⟨u, hu, rfl, hown⟩⟩
          exact
            { h with
              userIds := by
                have hids : (updateMany (isOwn identity) (fun v => { v with email := email }) d.users).map
                    User.id = d.users.map User.id := by
                  refine map_updateMany_eq User.id ?_ d.users
                  intro v
                  rfl
                exact hids ▸ h.userIds
              userKeys := hkeys
              usersOld := forall_mem_updateMany h.usersOld fun _ _ _ hv => hv }
  | none =>
      rw [hfind] at hok
      simp only at hok
      split at hok
      · cases hok
      · cases hok
        refine ⟨?_, ⟨fun _ _ hh => hh, ?_, fun _ _ hm => hm⟩,
          ⟨_, List.mem_append_right _ (List.mem_singleton_self _), rfl, rfl⟩⟩
        · exact
            { h with
              userIds := by
                rw [List.map_append, List.map_singleton, List.nodup_append_comm, List.singleton_append, List.nodup_cons]
                refine ⟨fun hmem => ?_, h.userIds⟩
                obtain ⟨v, hv, heq⟩ := List.mem_map.mp hmem
                exact absurd heq (Nat.ne_of_lt (h.usersOld v hv))
              userKeys := hkeys
              tenantsOld := fun t ht => Nat.lt_succ_of_lt (h.tenantsOld t ht)
              usersOld := by
                intro v hv
                rcases List.mem_append.mp hv with hold | hadded
                · exact Nat.lt_succ_of_lt (h.usersOld v hold)
                · obtain rfl := List.mem_singleton.mp hadded
                  exact Nat.lt_succ_self _ }
        · rintro userId clerkUserId ⟨v, hv, hrest⟩
          exact ⟨v, List.mem_append_left _ hv, hrest⟩

theorem isMembership_iff {tenantId userId : Nat} {m : Membership} :
    isMembership tenantId userId m = true ↔ m.pair = (tenantId, userId) := by
  simp [isMembership, Membership.pair]

theorem upsertMembership_grown {d : Directory} (h : Sound d) (tenantId userId : Nat) (role : MembershipRole) :
    Sound (upsertMembership tenantId userId role d) ∧ Grown d (upsertMembership tenantId userId role d) ∧
      (upsertMembership tenantId userId role d).Member tenantId userId := by
  unfold upsertMembership
  split
  · rename_i hany
    obtain ⟨m, hm, hpair⟩ := List.any_eq_true.mp hany
    have hkeep : ∀ t u, d.Member t u → Directory.Member
        { d with
          memberships := updateMany (isMembership tenantId userId) (fun m => { m with role := role }) d.memberships }
        t u := by
      rintro t u ⟨m', hm', hpair'⟩
      refine ⟨if isMembership tenantId userId m' = true then { m' with role := role } else m',
        mem_updateMany.mpr ⟨m', hm', rfl⟩, ?_⟩
      split
      · exact hpair'
      · exact hpair'
    refine ⟨?_, ⟨fun _ _ hh => hh, fun _ _ hk => hk, hkeep⟩, hkeep _ _ ⟨m, hm, isMembership_iff.mp hpair⟩⟩
    exact
      { h with
        pairs := by
          have hpairs : (updateMany (isMembership tenantId userId) (fun m => { m with role := role })
              d.memberships).map Membership.pair = d.memberships.map Membership.pair := by
            refine map_updateMany_eq Membership.pair ?_ d.memberships
            intro m
            rfl
          exact hpairs ▸ h.pairs }
  · rename_i hany
    refine ⟨?_, ⟨fun _ _ hh => hh, fun _ _ hk => hk, ?_⟩,
      ⟨_, List.mem_append_right _ (List.mem_singleton_self _), rfl⟩⟩
    · exact
        { h with
          pairs := by
            rw [List.map_append, List.map_singleton, List.nodup_append_comm, List.singleton_append, List.nodup_cons]
            refine ⟨fun hmem => hany ?_, h.pairs⟩
            obtain ⟨m, hm, hpair⟩ := List.mem_map.mp hmem
            exact List.any_eq_true.mpr ⟨m, hm, isMembership_iff.mpr hpair⟩ }
    · rintro t u ⟨m, hm, hpair⟩
      exact ⟨m, List.mem_append_left _ hm, hpair⟩

/-! ## Any number of requests -/

/-- What a request knows where it has come. -/
def Stage.Placed (d : Directory) : Stage → Prop
  | .ensured call tenantUuid => d.Hosts tenantUuid call.workspace
  | .upserted call userId =>
      d.Knows userId call.identity.clerkUserId ∧ call.workspace = .personal call.identity.clerkUserId
  | .joining call tenantUuid userId =>
      d.Hosts tenantUuid call.workspace ∧ d.Knows userId call.identity.clerkUserId
  | .entered call auth =>
      d.Hosts auth.tenantId call.workspace ∧ d.Knows auth.userId call.identity.clerkUserId ∧
        d.Member auth.tenantId auth.userId ∧ auth.role = call.role
  | _ => True

theorem Stage.Placed.mono {d d' : Directory} {stage : Stage} (h : stage.Placed d) (hgrown : Grown d d') :
    stage.Placed d' := by
  cases stage with
  | waiting => trivial
  | failed e => trivial
  | ensured call tenantUuid => exact hgrown.hosts _ _ h
  | upserted call userId => exact ⟨hgrown.knows _ _ h.1, h.2⟩
  | joining call tenantUuid userId => exact ⟨hgrown.hosts _ _ h.1, hgrown.knows _ _ h.2⟩
  | entered call auth =>
      obtain ⟨hhosts, hknows, hmember, hrole⟩ := h
      exact ⟨hgrown.hosts _ _ hhosts, hgrown.knows _ _ hknows, hgrown.member _ _ hmember, hrole⟩

theorem start_spec {d d' : Directory} {stage : Stage} (h : Sound d) {call : Call}
    (hstart : start call d = (d', stage)) :
    Sound d' ∧ Grown d d' ∧ stage.Placed d' := by
  cases call with
  | establishPersonal identity =>
      simp only [start] at hstart
      split at hstart
      · cases hstart
        exact ⟨h, Grown.refl _, trivial⟩
      · rename_i hok
        cases hstart
        exact ensure_personal_tenant_spec h hok
  | establish identity =>
      simp only [start] at hstart
      split at hstart
      · rename_i clerkOrg role horg hrole
        split at hstart
        · cases hstart
          exact ⟨h, Grown.refl _, trivial⟩
        · rename_i hok
          cases hstart
          have hworkspace : (Call.establish identity).workspace = .company clerkOrg := by
            simp [Call.workspace, horg, hrole]
          obtain ⟨hsound, hgrown, hhosts⟩ := ensure_tenant_spec h hok
          rw [← hworkspace] at hhosts
          exact ⟨hsound, hgrown, hhosts⟩
      · rename_i hnone
        split at hstart
        · cases hstart
          exact ⟨h, Grown.refl _, trivial⟩
        · rename_i hok
          cases hstart
          obtain ⟨hsound, hgrown, hknows⟩ := upsertUser_grown h hok
          refine ⟨hsound, hgrown, hknows, ?_⟩
          cases horg : truthy identity.clerkOrgId with
          | none => simp [Call.workspace, Call.identity, horg]
          | some org =>
              cases hrole : identity.role with
              | none => simp [Call.workspace, Call.identity, horg, hrole]
              | some role => exact absurd hrole (hnone org role horg)

theorem proceed_spec {d d' : Directory} {stage stage' : Stage} (h : Sound d) (hplaced : stage.Placed d)
    (hproceed : proceed d stage = some (d', stage')) : Sound d' ∧ Grown d d' ∧ stage'.Placed d' := by
  cases stage with
  | waiting => cases hproceed
  | entered call auth => cases hproceed
  | failed e => cases hproceed
  | ensured call tenantUuid =>
      simp only [proceed] at hproceed
      split at hproceed
      · cases hproceed
        exact ⟨h, Grown.refl _, trivial⟩
      · rename_i hok
        cases hproceed
        obtain ⟨hsound, hgrown, hknows⟩ := upsertUser_grown h hok
        exact ⟨hsound, hgrown, hgrown.hosts _ _ hplaced, hknows⟩
  | upserted call userId =>
      simp only [proceed] at hproceed
      split at hproceed
      · cases hproceed
        exact ⟨h, Grown.refl _, trivial⟩
      · rename_i hfind
        cases hproceed
        exact ⟨h, Grown.refl _, hplaced.2 ▸ find_personal_tenant_spec h hfind, hplaced.1⟩
  | joining call tenantUuid userId =>
      cases hproceed
      obtain ⟨hsound, hgrown, hmember⟩ := upsertMembership_grown h tenantUuid userId call.role
      exact ⟨hsound, hgrown, hgrown.hosts _ _ hplaced.1, hgrown.knows _ _ hplaced.2, hmember, rfl⟩

/-- The outline: the tables are sound, and every request has what it knows. -/
theorem requests_outline :
    ProofOutline requests (fun _ _ => True) Sound (fun d _ stage => stage.Placed d) (fun _ _ => True) where
  env s e := e.elim
  act s p c d stage hs _ hact := by
    have hstep : Sound d ∧ Grown s.shared d ∧ stage.Placed d := by
      cases c with
      | start call =>
          simp only [requests] at hact
          split at hact
          · rename_i hc hwaiting
            cases hc
            exact start_spec hs.shared (Option.some.inj hact)
          · rename_i hc
            cases hc
          · cases hact
      | proceed =>
          simp only [requests] at hact
          exact proceed_spec hs.shared (hs.proc p) hact
    obtain ⟨hsound, hgrown, hplaced⟩ := hstep
    exact ⟨hsound, hplaced, fun q _ => (hs.proc q).mono hgrown, fun _ _ => ⟨trivial, trivial⟩⟩

/-- Nobody has asked for anything yet. -/
def noRequests : System Directory Stage := ⟨.empty, fun _ => .waiting⟩

theorem holds_of_reaches {s : System Directory Stage} (h : Reaches requests (fun _ _ => True) noRequests s) :
    Holds Sound (fun d _ stage => stage.Placed d) (fun _ _ => True) s :=
  requests_outline.holds_of_reaches h ⟨sound_empty, fun _ => trivial, fun _ _ _ => trivial⟩

/-- An id is of one workspace. -/
theorem hosts_unique {d : Directory} (h : Sound d) {tenantId : Nat} {w w' : Workspace} (hw : d.Hosts tenantId w)
    (hw' : d.Hosts tenantId w') : w = w' := by
  obtain ⟨t, ht, rfl, hof⟩ := hw
  obtain ⟨t', ht', hid, hof'⟩ := hw'
  obtain rfl := eq_of_key_eq h.tenantIds ht' ht hid
  exact Workspace.key_inj (hof.key.symm.trans hof'.key)

/-- A workspace has one id. -/
theorem hosts_id_unique {d : Directory} (h : Sound d) {tenantId tenantId' : Nat} {w : Workspace}
    (hid : d.Hosts tenantId w) (hid' : d.Hosts tenantId' w) : tenantId = tenantId' := by
  obtain ⟨t, ht, rfl, hof⟩ := hid
  obtain ⟨t', ht', rfl, hof'⟩ := hid'
  rw [eq_of_key_eq h.tenantKeys ht ht' (hof.key.trans hof'.key.symm)]

theorem knows_unique {d : Directory} (h : Sound d) {userId userId' : Nat} {clerkUserId clerkUserId' : JsString}
    (hknows : d.Knows userId clerkUserId) (hknows' : d.Knows userId' clerkUserId') :
    userId = userId' ↔ clerkUserId = clerkUserId' := by
  obtain ⟨u, hu, rfl, hclerk⟩ := hknows
  obtain ⟨u', hu', rfl, hclerk'⟩ := hknows'
  constructor
  · intro hid
    rw [eq_of_key_eq h.userIds hu hu' hid] at hclerk
    exact Option.some.inj (hclerk.symm.trans hclerk')
  · intro heq
    rw [eq_of_key_eq h.userKeys hu hu' (hclerk.trans ((congrArg some heq).trans hclerk'.symm))]

/-- **Two requests are let into one workspace exactly when their sessions name the same one**: one organisation, or
no organisation and one person.  They are let in as one user exactly when they are of one person, each with the role
its session gives it, and of a person in a workspace there is one membership. -/
theorem let_in_iff {s : System Directory Stage} (h : Reaches requests (fun _ _ => True) noRequests s) {p q : Nat}
    {call call' : Call} {auth auth' : RequestAuth} (hp : s.procs p = .entered call auth)
    (hq : s.procs q = .entered call' auth') :
    (auth.tenantId = auth'.tenantId ↔ call.workspace = call'.workspace) ∧
      (auth.userId = auth'.userId ↔ call.identity.clerkUserId = call'.identity.clerkUserId) ∧
      auth.role = call.role ∧
      (s.shared.memberships.filter (isMembership auth.tenantId auth.userId)).length = 1 := by
  have hholds := holds_of_reaches h
  have hsound := hholds.shared
  have hplaced := hholds.proc p
  have hplaced' := hholds.proc q
  rw [hp] at hplaced
  rw [hq] at hplaced'
  obtain ⟨hhosts, hknows, ⟨m, hm, hpair⟩, hrole⟩ := hplaced
  obtain ⟨hhosts', hknows', -, -⟩ := hplaced'
  refine ⟨⟨fun hid => ?_, fun hw => ?_⟩, knows_unique hsound hknows hknows', hrole, ?_⟩
  · exact hosts_unique hsound hhosts (hid ▸ hhosts')
  · exact hosts_id_unique hsound hhosts (hw ▸ hhosts')
  · rw [← List.countP_eq_length_filter]
    have hle := matchCount_key_le_one hsound.pairs (auth.tenantId, auth.userId) fun _ => true
    have hpos : 0 < s.shared.memberships.countP (isMembership auth.tenantId auth.userId) :=
      List.countP_pos_iff.mpr ⟨m, hm, isMembership_iff.mpr hpair⟩
    have hsame : matchCount (fun r => decide (Membership.pair r = (auth.tenantId, auth.userId)) && true)
        s.shared.memberships = s.shared.memberships.countP (isMembership auth.tenantId auth.userId) := by
      refine List.countP_congr fun r _ => ?_
      rw [isMembership_iff]
      simp
    omega

/-! ## A new organisation -/

/-- Somebody of a new organisation. -/
def exampleMember (clerkUserId : String) (email : String) : VerifiedIdentity where
  clerkUserId := js clerkUserId
  email := some (js email)
  clerkOrgId := some (js "org_a")
  orgName := some (js "Firm")
  role := some .MEMBER

/-- Two of its people send their first requests at once, and one of them chooses a personal workspace too. -/
def exampleSchedule : List (Label Choice Empty) :=
  [.proc 0 (.start (.establish (exampleMember "user_a" "a@firm.uz"))),
    .proc 1 (.start (.establish (exampleMember "user_b" "b@firm.uz"))), .proc 1 .proceed, .proc 0 .proceed,
    .proc 2 (.start (.establishPersonal (exampleMember "user_a" "a@firm.uz"))), .proc 2 .proceed, .proc 1 .proceed,
    .proc 2 .proceed, .proc 0 .proceed]

/-- The two people are in one workspace, and one of them in another as well. -/
theorem let_in_iff_example : ∃ s, requests.run noRequests exampleSchedule = some s ∧
    ∃ call auth call' auth', s.procs 0 = .entered call auth ∧ s.procs 2 = .entered call' auth' ∧
      (auth.tenantId = auth'.tenantId ↔ call.workspace = call'.workspace) ∧
      (auth.userId = auth'.userId ↔ call.identity.clerkUserId = call'.identity.clerkUserId) ∧
      auth.role = call.role ∧
      (s.shared.memberships.filter (isMembership auth.tenantId auth.userId)).length = 1 := by
  have hsome : (requests.run noRequests exampleSchedule).isSome = true := rfl
  obtain ⟨s, hrun⟩ := Option.isSome_iff_exists.mp hsome
  have hreaches : Reaches requests (fun _ _ => True) noRequests s := Reaches.of_run (fun _ _ _ => trivial) hrun
  have hentered : ∃ call auth call' auth', s.procs 0 = .entered call auth ∧ s.procs 2 = .entered call' auth' := by
    have hstages : (requests.run noRequests exampleSchedule).map (fun s => (s.procs 0, s.procs 2)) =
      some (.entered (.establish (exampleMember "user_a" "a@firm.uz")) ⟨2, js "user_a", 0, .MEMBER⟩,
        .entered (.establishPersonal (exampleMember "user_a" "a@firm.uz")) ⟨2, js "user_a", 3, .OWNER⟩) := rfl
    rw [hrun, Option.map_some, Option.some_inj] at hstages
    obtain ⟨h0, h2⟩ := Prod.mk.inj hstages
    exact ⟨_, _, _, _, h0, h2⟩
  obtain ⟨call, auth, call', auth', h0, h2⟩ := hentered
  exact ⟨s, hrun, call, auth, call', auth', h0, h2, let_in_iff hreaches h0 h2⟩

end ESignSoft.Identity
