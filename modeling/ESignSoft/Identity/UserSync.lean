import ESignSoft.Lib.JsText
import ESignSoft.Lib.Table

/-!
# Mirroring a verified identity

Every authenticated request writes the person it was made by into the users table, found by the id the
identity provider gives them.  The table has a second unique column, the address, and a row that already
has the address to be written makes the statement fail.

* `upsertUser_ok_iff` — when the statement goes through;
* `upsertUser_synced_iff` — on every table such requests can leave behind, an identity ends up on exactly
  one row of its own when no row of somebody else has its address, and fails otherwise.
-/

namespace ESignSoft.Identity

open ESignSoft.Lib.JsText ESignSoft.Lib.Table

inductive MembershipRole
  | OWNER
  | ADMIN
  | MEMBER
  | VIEWER
  deriving DecidableEq, Repr

/-- What a verified session token gives. -/
structure VerifiedIdentity where
  clerkUserId : JsString
  email : Option JsString
  clerkOrgId : Option JsString
  orgName : Option JsString
  role : Option MembershipRole

structure User where
  id : Nat
  email : JsString
  clerkUserId : Option JsString
  deriving DecidableEq

inductive TenantKind
  | personal
  | company
  deriving DecidableEq, Repr

structure Tenant where
  id : Nat
  name : JsString
  kind : TenantKind
  clerkOrgId : Option JsString
  personalUserId : Option JsString

structure Membership where
  tenantId : Nat
  userId : Nat
  role : MembershipRole

/-- The tables, and the ids not drawn yet. -/
structure Directory where
  tenants : List Tenant
  users : List User
  memberships : List Membership
  nextId : Nat

def Directory.empty : Directory := ⟨[], [], [], 0⟩

inductive SyncError
  /-- `Unique constraint failed on the fields: (email)`. -/
  | emailTaken
  /-- `ensure_tenant: empty clerk_org`, `ensure_personal_tenant: empty clerk_user`. -/
  | emptyKey
  | onboardingRequired
  deriving DecidableEq

structure RequestAuth where
  userId : Nat
  clerkUserId : JsString
  tenantId : Nat
  role : MembershipRole

/-- A string that is there and not empty. -/
def truthy (value : Option JsString) : Option JsString := value.filter fun v => v != []

/-! ## The bootstrap functions of the database -/

/-- `INSERT … ON CONFLICT (key) DO UPDATE SET name`, where the default name never replaces a given one. -/
def ensure (key : Tenant → Bool) (fallback name : JsString) (row : Nat → JsString → Tenant)
    (d : Directory) : Nat × Directory :=
  let excluded := if name = [] then fallback else name
  match d.tenants.find? key with
  | some t =>
      let renamed := if excluded = fallback then t.name else excluded
      (t.id, { d with tenants := updateMany key (fun t => { t with name := renamed }) d.tenants })
  | none => (d.nextId, { d with tenants := d.tenants ++ [row d.nextId excluded], nextId := d.nextId + 1 })

def ensure_tenant (clerkOrg orgName : JsString) (d : Directory) : Except SyncError (Nat × Directory) :=
  if clerkOrg = [] then .error .emptyKey
  else .ok (ensure (fun t => t.clerkOrgId == some clerkOrg) (js "Workspace") orgName
    (fun id name => ⟨id, name, .company, some clerkOrg, none⟩) d)

def ensure_personal_tenant (clerkUser wsName : JsString) (d : Directory) :
    Except SyncError (Nat × Directory) :=
  if clerkUser = [] then .error .emptyKey
  else .ok (ensure (fun t => t.personalUserId == some clerkUser) (js "My workspace") wsName
    (fun id name => ⟨id, name, .personal, none, some clerkUser⟩) d)

def find_personal_tenant (clerkUser : JsString) (d : Directory) : Option Nat :=
  (d.tenants.find? fun t => t.personalUserId == some clerkUser && t.kind == .personal).map Tenant.id

/-! ## The service -/

/-- The row of an identity. -/
def isOwn (identity : VerifiedIdentity) (u : User) : Bool := u.clerkUserId == some identity.clerkUserId

/-- The address a new row is created with. -/
def createdEmail (identity : VerifiedIdentity) : JsString :=
  identity.email.getD (identity.clerkUserId ++ js "@placeholder.docflow.invalid")

/-- The one upsert: conflicts on the provider's id update the row, and either way no two rows may end up
with one address. -/
def upsertUser (identity : VerifiedIdentity) (d : Directory) : Except SyncError (Nat × Directory) :=
  match d.users.find? (isOwn identity) with
  | some u =>
      match truthy identity.email with
      | none => .ok (u.id, d)
      | some email =>
          if d.users.any fun v => !isOwn identity v && v.email == email then .error .emailTaken
          else
            let users := updateMany (isOwn identity) (fun v => { v with email := email }) d.users
            .ok (u.id, { d with users := users })
  | none =>
      let email := createdEmail identity
      if d.users.any fun v => v.email == email then .error .emailTaken
      else
        let user : User := ⟨d.nextId, email, some identity.clerkUserId⟩
        .ok (d.nextId, { d with users := d.users ++ [user], nextId := d.nextId + 1 })

def isMembership (tenantId userId : Nat) (m : Membership) : Bool :=
  m.tenantId == tenantId && m.userId == userId

/-- The membership's upsert; its one unique key is the one it conflicts on. -/
def upsertMembership (tenantId userId : Nat) (role : MembershipRole) (d : Directory) : Directory :=
  if d.memberships.any (isMembership tenantId userId) then
    { d with
      memberships :=
        updateMany (isMembership tenantId userId) (fun m => { m with role := role }) d.memberships }
  else { d with memberships := d.memberships ++ [⟨tenantId, userId, role⟩] }

/-- A call leaves the tables as they are when a statement of it fails, what was written before it
included. -/
abbrev Answer := Except SyncError RequestAuth × Directory

def enterWithMembership (identity : VerifiedIdentity) (tenantUuid : Nat) (role : MembershipRole)
    (knownUserId : Option Nat) (d : Directory) : Answer :=
  let enter (userId : Nat) (d : Directory) : Answer :=
    (.ok ⟨userId, identity.clerkUserId, tenantUuid, role⟩, upsertMembership tenantUuid userId role d)
  match knownUserId with
  | some userId => enter userId d
  | none =>
      match upsertUser identity d with
      | .error e => (.error e, d)
      | .ok (userId, d) => enter userId d

def establish (identity : VerifiedIdentity) (d : Directory) : Answer :=
  match truthy identity.clerkOrgId, identity.role with
  | some clerkOrg, some role =>
      match ensure_tenant clerkOrg (identity.orgName.getD []) d with
      | .error e => (.error e, d)
      | .ok (tenantUuid, d) => enterWithMembership identity tenantUuid role none d
  | _, _ =>
      match upsertUser identity d with
      | .error e => (.error e, d)
      | .ok (userId, d) =>
          match find_personal_tenant identity.clerkUserId d with
          | none => (.error .onboardingRequired, d)
          | some tenantUuid => enterWithMembership identity tenantUuid .OWNER (some userId) d

/-- A default name for a personal workspace. -/
def personalName (identity : VerifiedIdentity) : JsString :=
  match truthy (identity.email.map fun email => (email.splitOn 0x40).headD []) with
  | some handle => handle ++ js "'s workspace"
  | none => js "My workspace"

def establishPersonal (identity : VerifiedIdentity) (d : Directory) : Answer :=
  match ensure_personal_tenant identity.clerkUserId (personalName identity) d with
  | .error e => (.error e, d)
  | .ok (tenantUuid, d) => enterWithMembership identity tenantUuid .OWNER none d

inductive Call
  | establish (identity : VerifiedIdentity)
  | establishPersonal (identity : VerifiedIdentity)

def Call.after (d : Directory) : Call → Directory
  | .establish identity => (Identity.establish identity d).2
  | .establishPersonal identity => (Identity.establishPersonal identity d).2

/-- The tables some sequence of calls leaves behind. -/
def Reachable (d : Directory) : Prop := ∃ calls : List Call, d = calls.foldl Call.after .empty

/-! ## What the upsert does -/

/-- The address the upsert writes, if any. -/
def emailWritten (identity : VerifiedIdentity) (users : List User) : Option JsString :=
  if users.any (isOwn identity) then truthy identity.email else some (createdEmail identity)

/-- A row of somebody else has the address the upsert writes. -/
def EmailHeld (identity : VerifiedIdentity) (users : List User) : Prop :=
  ∃ v ∈ users, isOwn identity v = false ∧ emailWritten identity users = some v.email

/-- The identity is on exactly one row, the one returned, and everybody else's rows are what they were. -/
def Synced (identity : VerifiedIdentity) (users users' : List User) (id : Nat) : Prop :=
  ∃ u, u.id = id ∧ users'.filter (isOwn identity) = [u] ∧
    (users'.filter fun v => !isOwn identity v) = users.filter fun v => !isOwn identity v

/-- Every row belongs to one of the provider's users, and no two to the same. -/
def OneRowEach (users : List User) : Prop := (users.map User.clerkUserId).Nodup

theorem any_isOwn_iff_find {identity : VerifiedIdentity} {users : List User} :
    users.any (isOwn identity) = (users.find? (isOwn identity)).isSome := by
  rw [Bool.eq_iff_iff, List.any_eq_true, List.find?_isSome]

/-- Where none is found, every row is somebody else's. -/
theorem isOwn_of_find_none {identity : VerifiedIdentity} {users : List User}
    (hfind : users.find? (isOwn identity) = none) : ∀ v ∈ users, isOwn identity v = false :=
  fun v hv => Bool.eq_false_iff.mpr (List.find?_eq_none.mp hfind v hv)

/-- With one row each, the rows of an identity are the row found. -/
theorem filter_isOwn_of_find {identity : VerifiedIdentity} {users : List User} (hone : OneRowEach users)
    {u : User} (hfind : users.find? (isOwn identity) = some u) : users.filter (isOwn identity) = [u] := by
  induction users with
  | nil => cases hfind
  | cons v users ih =>
      obtain ⟨hv, hrest⟩ := List.nodup_cons.mp hone
      by_cases hown : isOwn identity v = true
      · rw [List.find?_cons_of_pos hown] at hfind
        obtain rfl := Option.some.inj hfind
        -- A second row of the identity would repeat its identifier.
        have hnone : users.filter (isOwn identity) = [] := by
          rw [List.filter_eq_nil_iff]
          intro w hw hwown
          have hsame : w.clerkUserId = v.clerkUserId := by
            rw [beq_iff_eq.mp hwown, beq_iff_eq.mp hown]
          exact hv (hsame ▸ List.mem_map_of_mem hw)
        rw [List.filter_cons_of_pos hown, hnone]
      · rw [List.find?_cons_of_neg hown] at hfind
        rw [List.filter_cons_of_neg hown]
        exact ih hrest hfind

/-- Writing an address to an identity's rows touches no other row. -/
theorem filter_updateMany (identity : VerifiedIdentity) (users : List User) (email : JsString) :
    (updateMany (isOwn identity) (fun v => { v with email := email }) users).filter (isOwn identity) =
        (users.filter (isOwn identity)).map (fun v => { v with email := email }) ∧
      ((updateMany (isOwn identity) (fun v => { v with email := email }) users).filter
          fun v => !isOwn identity v) = users.filter fun v => !isOwn identity v := by
  induction users with
  | nil => exact ⟨rfl, rfl⟩
  | cons v users ih =>
      obtain ⟨hown, hother⟩ := ih
      have hsame : isOwn identity { v with email := email } = isOwn identity v := rfl
      by_cases hv : isOwn identity v = true
      · rw [updateMany_cons, if_pos hv]
        simp [hsame, hv, hown, hother]
      · rw [updateMany_cons, if_neg hv]
        simp [hv, hown, hother]

/-- **When the upsert goes through.** -/
theorem upsertUser_ok_iff (identity : VerifiedIdentity) (d : Directory) :
    (∃ r, upsertUser identity d = .ok r) ↔ ¬ EmailHeld identity d.users := by
  unfold EmailHeld emailWritten upsertUser
  rw [any_isOwn_iff_find]
  cases hfind : d.users.find? (isOwn identity) with
  | some u =>
      simp only [Option.isSome_some, if_true]
      cases truthy identity.email with
      -- Nothing is written, and so nothing can be held.
      | none => simp
      | some email =>
          simp only [Option.some.injEq]
          split
          · rename_i hany
            obtain ⟨v, hv, hheld⟩ := List.any_eq_true.mp hany
            rw [Bool.and_eq_true, Bool.not_eq_true', beq_iff_eq] at hheld
            constructor
            · rintro ⟨r, hr⟩
              cases hr
            · intro hfree
              exact absurd ⟨v, hv, hheld.1, hheld.2.symm⟩ hfree
          · rename_i hany
            refine ⟨fun _ => ?_, fun _ => ⟨_, rfl⟩⟩
            rintro ⟨v, hv, hother, heq⟩
            exact hany (List.any_eq_true.mpr ⟨v, hv, by simp [hother, heq]⟩)
  | none =>
      have hnone := isOwn_of_find_none hfind
      simp only [Option.isSome_none, Bool.false_eq_true, if_false, Option.some.injEq]
      split
      · rename_i hany
        obtain ⟨v, hv, heq⟩ := List.any_eq_true.mp hany
        simpa using ⟨v, hv, hnone v hv, (beq_iff_eq.mp heq).symm⟩
      · rename_i hany
        simp only [Except.ok.injEq, exists_eq', true_iff]
        rintro ⟨v, hv, -, heq⟩
        exact hany (List.any_eq_true.mpr ⟨v, hv, by simp [heq]⟩)

/-- What an upsert that goes through leaves behind. -/
theorem upsertUser_spec {identity : VerifiedIdentity} {d d' : Directory} {id : Nat}
    (hone : OneRowEach d.users) (h : upsertUser identity d = .ok (id, d')) :
    Synced identity d.users d'.users id ∧ OneRowEach d'.users := by
  unfold upsertUser at h
  cases hfind : d.users.find? (isOwn identity) with
  | some u =>
      have hrow := filter_isOwn_of_find hone hfind
      rw [hfind] at h
      simp only at h
      cases hemail : truthy identity.email with
      | none =>
          rw [hemail] at h
          cases h
          exact ⟨⟨u, rfl, hrow, rfl⟩, hone⟩
      | some email =>
          rw [hemail] at h
          simp only at h
          split at h
          · cases h
          · cases h
            obtain ⟨hown, hother⟩ := filter_updateMany identity d.users email
            refine ⟨⟨{ u with email := email }, rfl, ?_, hother⟩, ?_⟩
            · rw [hown, hrow, List.map_singleton]
            · have hids : (updateMany (isOwn identity) (fun v => { v with email := email }) d.users).map
                  User.clerkUserId = d.users.map User.clerkUserId := by
                refine map_updateMany_eq User.clerkUserId ?_ d.users
                intro v
                rfl
              unfold OneRowEach at hone
              rw [← hids] at hone
              exact hone
  | none =>
      have hnone := isOwn_of_find_none hfind
      rw [hfind] at h
      simp only at h
      split at h
      · cases h
      · cases h
        have hnew : isOwn identity ⟨d.nextId, createdEmail identity, some identity.clerkUserId⟩ = true := by
          simp [isOwn]
        have hempty : d.users.filter (isOwn identity) = [] := by
          rw [List.filter_eq_nil_iff]
          intro v hv
          simp [hnone v hv]
        refine ⟨⟨⟨d.nextId, createdEmail identity, some identity.clerkUserId⟩, rfl, ?_, ?_⟩, ?_⟩
        · rw [List.filter_append, hempty, List.nil_append, List.filter_cons_of_pos hnew, List.filter_nil]
        · rw [List.filter_append, List.filter_cons_of_neg (by simp [hnew]), List.filter_nil,
            List.append_nil]
        · unfold OneRowEach
          rw [List.map_append, List.map_singleton, List.nodup_append_comm, List.singleton_append,
            List.nodup_cons]
          -- The row that is added is the first under this identifier.
          refine ⟨fun hmem => ?_, hone⟩
          obtain ⟨v, hv, hid⟩ := List.mem_map.mp hmem
          have hown : isOwn identity v = true := by simp [isOwn, hid]
          rw [hnone v hv] at hown
          cases hown

/-! ## Every table the service leaves behind -/

theorem users_ensure_tenant {clerkOrg orgName : JsString} {d d' : Directory} {id : Nat}
    (h : ensure_tenant clerkOrg orgName d = .ok (id, d')) : d'.users = d.users := by
  unfold ensure_tenant ensure at h
  grind

theorem users_ensure_personal_tenant {clerkUser wsName : JsString} {d d' : Directory} {id : Nat}
    (h : ensure_personal_tenant clerkUser wsName d = .ok (id, d')) : d'.users = d.users := by
  unfold ensure_personal_tenant ensure at h
  grind

theorem users_upsertMembership (tenantId userId : Nat) (role : MembershipRole) (d : Directory) :
    (upsertMembership tenantId userId role d).users = d.users := by
  unfold upsertMembership
  split <;> rfl

theorem oneRowEach_enterWithMembership {identity : VerifiedIdentity} {tenantUuid : Nat}
    {role : MembershipRole} {knownUserId : Option Nat} {d : Directory} (hone : OneRowEach d.users) :
    OneRowEach (enterWithMembership identity tenantUuid role knownUserId d).2.users := by
  unfold enterWithMembership
  cases knownUserId with
  | some userId =>
      rw [users_upsertMembership]
      exact hone
  | none =>
      cases hupsert : upsertUser identity d with
      | error e => exact hone
      | ok r =>
          rw [users_upsertMembership]
          exact (upsertUser_spec hone hupsert).2

/-- Every call keeps one row each. -/
theorem oneRowEach_after {d : Directory} (c : Call) (hone : OneRowEach d.users) :
    OneRowEach (c.after d).users := by
  cases c with
  | establishPersonal identity =>
      simp only [Call.after, establishPersonal]
      split
      · exact hone
      · rename_i hensure
        refine oneRowEach_enterWithMembership ?_
        rw [users_ensure_personal_tenant hensure]
        exact hone
  | establish identity =>
      simp only [Call.after, establish]
      split
      · split
        · exact hone
        · rename_i hensure
          refine oneRowEach_enterWithMembership ?_
          rw [users_ensure_tenant hensure]
          exact hone
      · split
        · exact hone
        · rename_i hupsert
          have hone' := (upsertUser_spec hone hupsert).2
          -- Without a workspace the call fails, but its transaction has upserted the user.
          split
          · exact hone'
          · exact oneRowEach_enterWithMembership hone'

theorem oneRowEach_of_reachable {d : Directory} (h : Reachable d) : OneRowEach d.users := by
  obtain ⟨calls, rfl⟩ := h
  have hrun : ∀ d : Directory, OneRowEach d.users → OneRowEach (calls.foldl Call.after d).users := by
    induction calls with
    | nil => exact fun d hone => hone
    | cons c calls ih => exact fun d hone => ih _ (oneRowEach_after c hone)
  exact hrun .empty List.nodup_nil

/-- **An identity is synchronised exactly when nobody else's row has its address.** -/
theorem upsertUser_synced_iff {d : Directory} (h : Reachable d) (identity : VerifiedIdentity) :
    (∃ id d', upsertUser identity d = .ok (id, d') ∧ Synced identity d.users d'.users id) ↔
      ¬ EmailHeld identity d.users := by
  rw [← upsertUser_ok_iff]
  constructor
  · rintro ⟨id, d', hok, -⟩
    exact ⟨_, hok⟩
  · rintro ⟨⟨id, d'⟩, hok⟩
    exact ⟨id, d', hok, (upsertUser_spec (oneRowEach_of_reachable h) hok).1⟩

/-- A person without an organisation. -/
def exampleIdentity (clerkUserId : String) (email : Option String) : VerifiedIdentity where
  clerkUserId := js clerkUserId
  email := email.map js
  clerkOrgId := none
  orgName := none
  role := none

/-- The tables after one person has chosen a personal workspace. -/
def exampleDirectory : Directory :=
  Call.after .empty (.establishPersonal (exampleIdentity "user_a" (some "sales@firm.uz")))

theorem upsertUser_synced_iff_own :
    (∃ id d', upsertUser (exampleIdentity "user_a" (some "new@firm.uz")) exampleDirectory = .ok (id, d') ∧
        Synced (exampleIdentity "user_a" (some "new@firm.uz")) exampleDirectory.users d'.users id) ↔
      ¬ EmailHeld (exampleIdentity "user_a" (some "new@firm.uz")) exampleDirectory.users :=
  upsertUser_synced_iff ⟨[.establishPersonal (exampleIdentity "user_a" (some "sales@firm.uz"))], rfl⟩ _

/-- An address that changed hands: its new holder cannot be let in as long as the old holder's row has
it. -/
theorem recycled_address_locks_out :
    ¬ ∀ (d : Directory) (identity : VerifiedIdentity), Reachable d →
      ∃ id d', upsertUser identity d = .ok (id, d') ∧ Synced identity d.users d'.users id := by
  intro h
  obtain ⟨id, d', hok, -⟩ := h exampleDirectory (exampleIdentity "user_b" (some "sales@firm.uz"))
    ⟨[.establishPersonal (exampleIdentity "user_a" (some "sales@firm.uz"))], rfl⟩
  have hfails : ∃ e, upsertUser (exampleIdentity "user_b" (some "sales@firm.uz")) exampleDirectory =
      .error e := ⟨.emailTaken, rfl⟩
  obtain ⟨e, he⟩ := hfails
  rw [he] at hok
  cases hok

end ESignSoft.Identity
