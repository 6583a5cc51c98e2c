import Lingshu.Setting.Runs

/-! # What a call does to memberships, roles and rules

`Authz` is the part of a server that authorization depends on. `Effect` lists what a call may make of it; a call
that raises leaves it as it was. -/
namespace Lingshu.Setting
open Interaction Proc
set_option autoImplicit false

/-! ## Statements -/

section Statements
variable {α : Type} {s : Server} {R : Exc → Server → Prop}

@[simp] theorem ensures_query {f : Database → α} {Q : α → Server → Prop} :
    (query f).Ensures s Q R ↔ Q (f s.db) s := Iff.rfl

@[simp] theorem ensures_execute {f : Database → Database} {Q : Unit → Server → Prop} :
    (execute f).Ensures s Q R ↔ Q () { s with db := f s.db } := Iff.rfl

@[simp] theorem ensures_enforce {f : PermissionEnforcer → PermissionEnforcer} {Q : Unit → Server → Prop} :
    (enforce f).Ensures s Q R ↔ Q () { s with enforcer := f s.enforcer } := Iff.rfl

@[simp] theorem ensures_flush {f : Database → Except Exc Database} {Q : Unit → Server → Prop} :
    (flush f).Ensures s Q R ↔
      (∀ db, f s.db = .ok db → Q () { s with db := db }) ∧ ∀ e, f s.db = .error e → R e s := by
  rw [flush, ensures_tryUpdate]
  cases f s.db <;> simp [Functor.map, Except.map]

end Statements

namespace Database
variable {db db' : Database}

theorem nodup_map_concat {α β : Type} {f : α → β} {rows : List α} {row : α} (hrows : (rows.map f).Nodup) :
    ((rows ++ [row]).map f).Nodup ↔ f row ∉ rows.map f := by
  rw [List.map_append, List.nodup_append]
  constructor
  · exact fun h hmem => h.2.2 _ hmem _ (by simp) rfl
  · intro hnew
    refine ⟨hrows, by simp, ?_⟩
    rintro x hx y hy rfl
    rw [List.map_singleton, List.mem_singleton] at hy
    exact hnew (hy ▸ hx)

theorem insertUser_ok {u : User} (h : db.insertUser u = .ok db') :
    u.rid ∉ db.users.map User.rid ∧ db'.users = db.users ++ [u] ∧ db'.tenants = db.tenants ∧
      db'.memberships = db.memberships ∧ db'.refreshTokens = db.refreshTokens ∧ db'.customRoles = db.customRoles := by
  unfold insertUser at h
  split at h
  · rename_i hkeys
    obtain rfl := Except.ok.inj h
    exact ⟨(nodup_map_concat db.userKeys).mp hkeys.1, rfl, rfl, rfl, rfl, rfl⟩
  · cases h

theorem insertTenant_ok {t : Tenant} (h : db.insertTenant t = .ok db') :
    t.rid ∉ db.tenants.map Tenant.rid ∧ db'.users = db.users ∧ db'.tenants = db.tenants ++ [t] ∧
      db'.memberships = db.memberships ∧ db'.refreshTokens = db.refreshTokens ∧ db'.customRoles = db.customRoles := by
  unfold insertTenant at h
  split at h
  · rename_i hnew
    obtain rfl := Except.ok.inj h
    exact ⟨(nodup_map_concat db.tenantKeys).mp hnew, rfl, rfl, rfl, rfl, rfl⟩
  · cases h

theorem insertMembership_ok {m : Membership} (h : db.insertMembership m = .ok db') :
    m.key ∉ db.memberships.map Membership.key ∧ m.userRid ∈ db.users.map User.rid ∧
      m.tenantRid ∈ db.tenants.map Tenant.rid ∧ db'.users = db.users ∧ db'.tenants = db.tenants ∧
      db'.memberships = db.memberships ++ [m] ∧ db'.refreshTokens = db.refreshTokens ∧
      db'.customRoles = db.customRoles := by
  unfold insertMembership at h
  split at h
  · rename_i hkeys
    obtain rfl := Except.ok.inj h
    exact ⟨(nodup_map_concat db.membershipKeys).mp hkeys.1, hkeys.2.1, hkeys.2.2, rfl, rfl, rfl, rfl, rfl⟩
  · cases h

theorem insertRefreshToken_ok {k : RefreshToken} (h : db.insertRefreshToken k = .ok db') :
    db'.users = db.users ∧ db'.tenants = db.tenants ∧ db'.memberships = db.memberships ∧
      db'.refreshTokens = db.refreshTokens ++ [k] ∧ db'.customRoles = db.customRoles := by
  unfold insertRefreshToken at h
  split at h
  · obtain rfl := Except.ok.inj h
    exact ⟨rfl, rfl, rfl, rfl, rfl⟩
  · cases h

/-- A new token of an existing user and tenant is never refused. -/
theorem insertRefreshToken_fresh {k : RefreshToken} (hnew : k.tokenHash ∉ db.refreshTokens.map RefreshToken.tokenHash)
    (hu : k.userRid ∈ db.users.map User.rid) (ht : k.tenantRid ∈ db.tenants.map Tenant.rid) {e : Exc} :
    db.insertRefreshToken k ≠ .error e := by
  have hnodup : ((db.refreshTokens ++ [k]).map RefreshToken.tokenHash).Nodup := (nodup_map_concat db.tokenKeys).mpr hnew
  rw [insertRefreshToken, dif_pos ⟨hnodup, hu, ht⟩]
  simp

theorem insertRole_ok {r : CustomRole} (h : db.insertRole r = .ok db') :
    r.rid ∉ db.customRoles.map CustomRole.rid ∧ r.key ∉ db.customRoles.map CustomRole.key ∧ db'.users = db.users ∧
      db'.tenants = db.tenants ∧ db'.memberships = db.memberships ∧ db'.refreshTokens = db.refreshTokens ∧
      db'.customRoles = db.customRoles ++ [r] := by
  unfold insertRole at h
  split at h
  · rename_i hkeys
    obtain rfl := Except.ok.inj h
    exact ⟨(nodup_map_concat db.roleKeys).mp hkeys.1, (nodup_map_concat db.roleNames).mp hkeys.2, rfl, rfl, rfl, rfl,
      rfl⟩
  · cases h

theorem updateRole_ok {rid : String} {fields : RoleFields} {now : Time} (h : db.updateRole rid fields now = .ok db') :
    db'.users = db.users ∧ db'.tenants = db.tenants ∧ db'.memberships = db.memberships ∧
      db'.refreshTokens = db.refreshTokens ∧
      db'.customRoles = setRow CustomRole.rid rid (CustomRole.set fields now) db.customRoles := by
  unfold updateRole at h
  split at h
  · obtain rfl := Except.ok.inj h
    exact ⟨rfl, rfl, rfl, rfl, rfl⟩
  · cases h

theorem insertUser_error {u : User} {e : Exc} (h : db.insertUser u = .error e) :
    u.rid ∈ db.users.map User.rid ∨ u.email ∈ db.users.map User.email := by
  unfold insertUser at h
  split at h
  · cases h
  · rename_i hkeys
    rw [nodup_map_concat db.userKeys, nodup_map_concat db.emails] at hkeys
    by_contra hnew
    exact hkeys (not_or.mp hnew)

theorem insertTenant_error {t : Tenant} {e : Exc} (h : db.insertTenant t = .error e) :
    t.rid ∈ db.tenants.map Tenant.rid := by
  unfold insertTenant at h
  split at h
  · cases h
  · rename_i hkeys
    rwa [nodup_map_concat db.tenantKeys, not_not] at hkeys

theorem insertMembership_error {m : Membership} {e : Exc} (h : db.insertMembership m = .error e) :
    m.key ∈ db.memberships.map Membership.key ∨ m.userRid ∉ db.users.map User.rid ∨
      m.tenantRid ∉ db.tenants.map Tenant.rid := by
  unfold insertMembership at h
  split at h
  · cases h
  · rename_i hkeys
    rw [nodup_map_concat db.membershipKeys] at hkeys
    by_contra hnew
    simp only [not_or, not_not] at hnew
    exact hkeys hnew

theorem insertRole_error {r : CustomRole} {e : Exc} (h : db.insertRole r = .error e) :
    r.rid ∈ db.customRoles.map CustomRole.rid ∨ r.key ∈ db.customRoles.map CustomRole.key := by
  unfold insertRole at h
  split at h
  · cases h
  · rename_i hkeys
    rw [nodup_map_concat db.roleKeys, nodup_map_concat db.roleNames] at hkeys
    by_contra hnew
    exact hkeys (not_or.mp hnew)

theorem getUser_mem {rid : String} {u : User} (h : db.getUser rid = some u) : u ∈ db.users ∧ u.rid = rid :=
  ⟨List.mem_of_find?_eq_some h, by simpa using List.find?_some h⟩

theorem getByEmail_mem {email : String} {u : User} (h : db.getByEmail email = some u) :
    u ∈ db.users ∧ u.email = email :=
  ⟨List.mem_of_find?_eq_some h, by simpa using List.find?_some h⟩

theorem getTenant_mem {rid : String} {t : Tenant} (h : db.getTenant rid = some t) : t ∈ db.tenants ∧ t.rid = rid :=
  ⟨List.mem_of_find?_eq_some h, by simpa using List.find?_some h⟩

theorem getMembership_mem {userRid tenantRid : String} {m : Membership}
    (h : db.getMembership userRid tenantRid = some m) : m ∈ db.memberships ∧ m.key = (userRid, tenantRid) :=
  ⟨List.mem_of_find?_eq_some h, by simpa using List.find?_some h⟩

/-- The foreign key of memberships. -/
theorem getUser_of_member {m : Membership} (h : m ∈ db.memberships) : db.getUser m.userRid ≠ none := by
  intro hnone
  obtain ⟨user, huser, hrid⟩ := List.mem_map.mp (db.membershipUsers m h)
  have hfound := List.find?_eq_none.mp hnone user huser
  simp [hrid] at hfound

theorem getRole_mem {rid : String} {r : CustomRole} (h : db.getRole rid = some r) :
    r ∈ db.customRoles ∧ r.rid = rid :=
  ⟨List.mem_of_find?_eq_some h, by simpa using List.find?_some h⟩

end Database

/-! ## What authorization depends on -/

structure Authz where
  users : List String
  tenants : List String
  memberships : List Membership
  customRoles : List CustomRole
  enforcer : PermissionEnforcer

def Server.authz (s : Server) : Authz :=
  ⟨s.db.users.map User.rid, s.db.tenants.map Tenant.rid, s.db.memberships, s.db.customRoles, s.enforcer⟩

/-- The membership that decides the tenant of a login. -/
def Chosen (memberships : List Membership) (userRid : String) (m : Membership) : Prop :=
  (memberships.filter fun m => decide (m.userRid = userRid) && m.isDefault) = [m] ∨
    (memberships.filter fun m => decide (m.userRid = userRid) && m.isDefault) = [] ∧
      (memberships.filter fun m => decide (m.userRid = userRid)).head? = some m

theorem Chosen.mem {memberships : List Membership} {userRid : String} {m : Membership}
    (h : Chosen memberships userRid m) : m ∈ memberships ∧ m.userRid = userRid := by
  rcases h with h | ⟨_, h⟩
  · have hm : m ∈ memberships.filter fun m => decide (m.userRid = userRid) && m.isDefault := by simp [h]
    obtain ⟨hmem, hp⟩ := List.mem_filter.mp hm
    simp only [Bool.and_eq_true, decide_eq_true_eq] at hp
    exact ⟨hmem, hp.1⟩
  · have hm := List.mem_of_mem_head? (Option.mem_def.mpr h)
    obtain ⟨hmem, hp⟩ := List.mem_filter.mp hm
    exact ⟨hmem, of_decide_eq_true hp⟩

/-- The IdP knows the active user by the email of the account, and the tenant is the one that SSO adds users to. -/
def Provisions (db : Database) (idp : Except Exc OidcUserInfo) (userRid tenantRid : String) : Prop :=
  ∃ userinfo user tenant, idp = .ok userinfo ∧ userinfo.email ≠ "" ∧ db.getByEmail userinfo.email = some user ∧
    user.rid = userRid ∧ user.status ≠ .disabled ∧ db.newestTenant = some tenant ∧ tenant.rid = tenantRid

/-- The call signs a user in to a tenant. -/
def Op.SignsIn : Op → Prop
  | .login _ _ | .ssoCallback _ | .switchTenant _ => True
  | _ => False

instance : ∀ op : Op, Decidable op.SignsIn := fun op => by
  cases op <;> first | exact isTrue trivial | exact isFalse id

/-- What a call may make of memberships, roles and rules. -/
inductive Effect (ctx : Ctx) (s : Server) : Op → Authz → Prop
  | keep (op : Op) : Effect ctx s op s.authz
  | sync (op : Op) (hop : op.SignsIn) (m : Membership) (hm : m ∈ s.authz.memberships) :
      Effect ctx s op { s.authz with enforcer := s.authz.enforcer.syncUserRole m.userRid m.role }
  | addUser (op : Op) (tenantRid : String) (role : SystemRole) (hnew : generateRid "user" (ctx.uuids 0) ∉ s.authz.users)
      (ht : tenantRid ∈ s.authz.tenants) (hop : (∃ req, op = .createUser req) ∨ ∃ idp, op = .ssoCallback idp) :
      Effect ctx s op { s.authz with
        users := s.authz.users ++ [generateRid "user" (ctx.uuids 0)]
        memberships := s.authz.memberships ++ [⟨generateRid "user" (ctx.uuids 0), tenantRid, role.name, true, ctx.now⟩]
        enforcer := s.authz.enforcer.syncUserRole (generateRid "user" (ctx.uuids 0)) role.name }
  | addTenant (req : CreateTenantRequest) (hnew : generateRid "tenant" (ctx.uuids 0) ∉ s.authz.tenants)
      (hu : ctx.userId ∈ s.authz.users) :
      Effect ctx s (.createTenant req) { s.authz with
        tenants := s.authz.tenants ++ [generateRid "tenant" (ctx.uuids 0)]
        memberships := s.authz.memberships ++
          [⟨ctx.userId, generateRid "tenant" (ctx.uuids 0), "admin", false, ctx.now⟩] }
  | addMember (tenantRid : String) (req : AddMemberRequest)
      (hnew : (req.userRid, tenantRid) ∉ s.authz.memberships.map Membership.key) (hu : req.userRid ∈ s.authz.users)
      (ht : tenantRid ∈ s.authz.tenants) :
      Effect ctx s (.addMember tenantRid req) { s.authz with
        memberships := s.authz.memberships ++ [⟨req.userRid, tenantRid, req.role.name, false, ctx.now⟩]
        enforcer := s.authz.enforcer.syncUserRole req.userRid req.role.name }
  | setRole (op : Op) (m : Membership) (role : String) (hm : m ∈ s.authz.memberships)
      (hop : (∃ r : SystemRole, op = .updateMemberRole m.tenantRid m.userRid r ∧ role = r.name) ∨
        op = .assignRoleToUser m.userRid role ∧ m.tenantRid = ctx.tenantId) :
      Effect ctx s op { s.authz with
        memberships := s.authz.memberships.map (Membership.setRole m.key role)
        enforcer := (s.authz.enforcer.removeUserRole m.userRid m.role).syncUserRole m.userRid role }
  | removeMember (m : Membership) (hm : m ∈ s.authz.memberships)
      (hadmin : m.role = "admin" → 1 < (s.db.listByTenant m.tenantRid).countP fun m => m.role = "admin") :
      Effect ctx s (.removeMember m.tenantRid m.userRid) { s.authz with
        memberships := s.authz.memberships.filter fun m' => m'.key ≠ m.key
        enforcer := s.authz.enforcer.removeUserRole m.userRid m.role }
  | createRole (req : CreateRoleRequest) (role : CustomRole) (hsystem : role.isSystem = false)
      (ht : role.tenantId = ctx.tenantId) (hname : role.name = req.name)
      (hnew : role.key ∉ s.authz.customRoles.map CustomRole.key) :
      Effect ctx s (.createRole req) { s.authz with
        customRoles := s.authz.customRoles ++ [role]
        enforcer := s.authz.enforcer.addCustomRolePolicies role.name role.permissions }
  | updateRole (req : UpdateRoleRequest) (role : CustomRole) (fields : RoleFields) (hrole : role ∈ s.authz.customRoles)
      (hsystem : role.isSystem = false) (hname : fields.name = req.name.map Subtype.val) :
      Effect ctx s (.updateRole role.rid req) { s.authz with
        customRoles := setRow CustomRole.rid role.rid (CustomRole.set fields ctx.now) s.authz.customRoles
        enforcer := (s.authz.enforcer.removeRolePolicies role.name).addCustomRolePolicies (role.set fields ctx.now).name
          (role.set fields ctx.now).permissions }
  | deleteRole (role : CustomRole) (hrole : role ∈ s.authz.customRoles) (hsystem : role.isSystem = false) :
      Effect ctx s (.deleteRole role.rid) { s.authz with
        customRoles := s.authz.customRoles.filter fun r => r.rid ≠ role.rid
        enforcer := s.authz.enforcer.removeRolePolicies role.name }
  | provision (idp : Except Exc OidcUserInfo) (userRid tenantRid : String) (m : Membership) (hu : userRid ∈ s.authz.users)
      (ht : tenantRid ∈ s.authz.tenants) (hidp : Provisions s.db idp userRid tenantRid)
      (hnew : (userRid, tenantRid) ∉ s.authz.memberships.map Membership.key)
      (hm : Chosen (s.authz.memberships ++ [⟨userRid, tenantRid, "member", false, ctx.now⟩]) userRid m) :
      Effect ctx s (.ssoCallback idp) { s.authz with
        memberships := s.authz.memberships ++ [⟨userRid, tenantRid, "member", false, ctx.now⟩]
        enforcer := s.authz.enforcer.syncUserRole userRid m.role }

/-! ## Methods -/

/-- `token_urlsafe` returns a token that is not in the table. -/
def Ctx.FreshToken (cfg : Config) (ctx : Ctx) (db : Database) : Prop :=
  cfg.sha256 ctx.rawToken ∉ db.refreshTokens.map RefreshToken.tokenHash

instance (cfg : Config) (ctx : Ctx) (db : Database) : Decidable (ctx.FreshToken cfg db) :=
  inferInstanceAs (Decidable (_ ∉ _))

/-- The contract of a method, as part of a call `op`. -/
def Meets (ctx : Ctx) (op : Op) {α : Type} (p : Session α) (s : Server) : Prop :=
  p.Ensures s (fun _ s' => Effect ctx s op s'.authz) fun _ s' => s'.enforcer = s.enforcer

section Methods
variable {cfg : Config} {ctx : Ctx} {s : Server} {op : Op}

/-- Nothing that authorization depends on has changed. -/
theorem Effect.of_eq {s' : Server} (h : s'.authz = s.authz) : Effect ctx s op s'.authz := by
  rw [h]
  exact .keep op

theorem authz_execute_updateUser (rid : String) (fields : UserFields) (now : Time) :
    ({ s with db := s.db.updateUser rid fields now } : Server).authz = s.authz := by
  simp [Server.authz, Database.updateUser]

theorem authz_execute_updateTenant (rid : String) (fields : TenantFields) (now : Time) :
    ({ s with db := s.db.updateTenant rid fields now } : Server).authz = s.authz := by
  simp [Server.authz, Database.updateTenant]

theorem ensures_tokenMembership (userRid message : String) :
    (tokenMembership userRid message).Ensures s (fun m s' => s' = s ∧ Chosen s.db.memberships userRid m)
      fun _ s' => s' = s := by
  simp only [tokenMembership, ensures_bind, ensures_query, ensures_ofExcept, ensures_orRaise, implies_true, and_true,
    true_and]
  intro default hdefault m hm
  unfold Database.getDefaultTenant at hdefault
  split at hdefault
  · rename_i hnone
    obtain rfl := Except.ok.inj hdefault
    exact .inr ⟨hnone, hm⟩
  · rename_i m' hsome
    obtain rfl := Except.ok.inj hdefault
    obtain rfl := Option.some.inj hm
    exact .inl hsome
  · cases hdefault

theorem ensures_issueRefreshToken {userRid tenantRid : String} (hfresh : ctx.FreshToken cfg s.db)
    (hu : userRid ∈ s.db.users.map User.rid) (ht : tenantRid ∈ s.db.tenants.map Tenant.rid) :
    (issueRefreshToken cfg ctx userRid tenantRid).Ensures s
      (fun _ s' => s'.db.users = s.db.users ∧ s'.db.tenants = s.db.tenants ∧ s'.db.memberships = s.db.memberships ∧
        s'.db.customRoles = s.db.customRoles ∧ s'.enforcer = s.enforcer) fun _ _ => False := by
  simp only [issueRefreshToken, ensures_bind, ensures_flush, ensures_pure, and_true]
  constructor
  · intro db hdb
    obtain ⟨husers, htenants, hmemberships, _, hroles⟩ := Database.insertRefreshToken_ok hdb
    exact ⟨husers, htenants, hmemberships, hroles⟩
  · intro e he
    have hnew : (⟨cfg.sha256 ctx.rawToken, userRid, tenantRid, ctx.now + cfg.refreshTtl, none⟩ : RefreshToken).tokenHash ∉
        s.db.refreshTokens.map RefreshToken.tokenHash := hfresh
    exact Database.insertRefreshToken_fresh hnew hu ht he

/-- The tokens are issued for the membership, whose role is synced. -/
theorem ensures_issueTokens {user : User} {m : Membership} {jti : String} (hfresh : ctx.FreshToken cfg s.db)
    (hu : user.rid ∈ s.db.users.map User.rid) :
    (issueTokens cfg ctx user m jti).Ensures s
      (fun r s' => s'.authz = { s.authz with enforcer := s.enforcer.syncUserRole user.rid m.role } ∧
        s'.db.users = s.db.users ∧ s'.db.tenants = s.db.tenants ∧
        r.2.1.sub = user.rid ∧ r.2.1.tid = m.tenantRid ∧ r.2.1.role = m.role)
      fun _ s' => s'.enforcer = s.enforcer := by
  simp only [issueTokens, ensures_bind, ensures_query, ensures_orRaise, ensures_enforce, ensures_pure, implies_true,
    and_true]
  intro tenant htenant
  obtain ⟨hmem, hrid⟩ := Database.getTenant_mem htenant
  have ht : tenant.rid ∈ s.db.tenants.map Tenant.rid := List.mem_map_of_mem hmem
  refine (ensures_issueRefreshToken (s := { s with enforcer := s.enforcer.syncUserRole user.rid m.role }) hfresh hu
    ht).mono ?_ fun _ _ h => h.elim
  rintro raw s' ⟨husers, htenants, hmemberships, hroles, henforcer⟩
  refine ⟨?_, husers, htenants, rfl, hrid, rfl⟩
  simp [Server.authz, husers, htenants, hmemberships, hroles, henforcer]

theorem meets_login (hfresh : ctx.FreshToken cfg s.db) (email password : String) :
    Meets ctx (.login email password) (login cfg ctx email password) s := by
  simp only [Meets, login, ensures_bind, ensures_query, ensures_orRaise, ensures_ofExcept, ensures_require,
    implies_true, and_true]
  intro user huser verified _ _ _
  have hu : user.rid ∈ s.db.users.map User.rid := List.mem_map_of_mem (Database.getByEmail_mem huser).1
  refine (ensures_tokenMembership user.rid _).mono ?_ fun _ s' h => by rw [h]
  rintro m _ ⟨rfl, hchosen⟩
  refine (ensures_issueTokens hfresh hu).mono ?_ fun _ _ h => h
  rintro r s' ⟨hauthz, -⟩
  obtain ⟨hm, hmu⟩ := hchosen.mem
  rw [hauthz, ← hmu]
  exact .sync (.login email password) trivial m hm

theorem ensures_issueRefreshToken_authz (userRid tenantRid : String) :
    (issueRefreshToken cfg ctx userRid tenantRid).Ensures s (fun _ s' => s'.authz = s.authz) fun _ s' => s' = s := by
  simp only [issueRefreshToken, ensures_bind, ensures_flush, ensures_pure, implies_true, and_true]
  intro db hdb
  obtain ⟨husers, htenants, hmemberships, _, hroles⟩ := Database.insertRefreshToken_ok hdb
  simp [Server.authz, husers, htenants, hmemberships, hroles]

theorem meets_refresh (refreshRaw : String) : Meets ctx op (refresh cfg ctx refreshRaw) s := by
  simp only [Meets, refresh, ensures_bind, ensures_query, ensures_orRaise, ensures_ofExcept, ensures_require,
    ensures_execute, ensures_pure, implies_true, and_true]
  intro token _ valid _ _
  refine (ensures_issueRefreshToken_authz token.userRid token.tenantRid).mono ?_ ?_
  · intro raw s' hauthz
    exact Effect.of_eq hauthz
  · rintro e s' rfl
    rfl

theorem meets_logout (payload : Option TokenPayload) (refreshRaw : Option String) :
    Meets ctx op (logout cfg ctx payload refreshRaw) s := by
  have hrevoked : ∀ payload : TokenPayload, (if ctx.now < payload.exp then
      { s with blacklist := s.blacklist ++ [payload.jti] } else s).authz = s.authz := by
    intro payload
    split <;> rfl
  cases payload with
  | none =>
    unfold Meets logout
    split <;> exact Effect.keep op
  | some payload =>
    simp only [Meets, logout, ensures_bind, revokeToken, ensures_update]
    split <;> exact Effect.of_eq (hrevoked payload)

theorem ensures_requireStrength (password : String) :
    (requireStrength cfg password).Ensures s (fun _ s' => s' = s) fun _ s' => s' = s := by
  unfold requireStrength
  split <;> rfl

theorem ensures_updateUserFields (rid : String) (fields : UserFields) :
    (updateUserFields ctx rid fields).Ensures s (fun _ s' => s'.authz = s.authz)
      fun _ s' => s'.enforcer = s.enforcer := by
  simp only [updateUserFields, ensures_bind, ensures_execute, ensures_query, ensures_orRaise, implies_true, and_true]
  exact fun _ _ => authz_execute_updateUser rid fields ctx.now

theorem meets_changePassword (req : ChangePasswordRequest) : Meets ctx op (changePassword cfg ctx req) s := by
  simp only [Meets, changePassword, ensures_bind, ensures_query, ensures_orRaise, ensures_ofExcept, ensures_require,
    ensures_pure, implies_true, and_true]
  intro user _ verified _ _
  refine (ensures_requireStrength req.newPassword).mono ?_ fun _ _ h => by rw [h]
  rintro _ s' rfl
  exact (ensures_updateUserFields user.rid _).mono (fun _ _ h => Effect.of_eq h) fun _ _ h => h

theorem meets_createUser (req : CreateUserRequest) :
    Meets ctx (.createUser req) (createUser cfg ctx req) s := by
  simp only [Meets, createUser, ensures_bind, ensures_query, ensures_require, ensures_flush, ensures_enforce,
    ensures_pure, implies_true, and_true]
  intro _
  refine (ensures_requireStrength req.password).mono ?_ fun _ _ h => by rw [h]
  rintro _ s' rfl
  simp only [implies_true, and_true]
  intro db hdb db' hdb'
  obtain ⟨hnew, husers, htenants, hmemberships, _, hroles⟩ := Database.insertUser_ok hdb
  obtain ⟨_, _, ht, husers', htenants', hmemberships', _, hroles'⟩ := Database.insertMembership_ok hdb'
  rw [htenants] at ht
  have heffect : Effect ctx s' _ _ := .addUser (.createUser req) ctx.tenantId req.role hnew ht (.inl ⟨req, rfl⟩)
  simpa [Server.authz, husers', husers, htenants', htenants, hmemberships', hmemberships, hroles', hroles] using heffect

theorem meets_updateUser (rid : String) (req : UpdateUserRequest) : Meets ctx op (updateUser ctx rid req) s := by
  simp only [Meets, updateUser, ensures_bind, ensures_require, ensures_pure, implies_true, and_true]
  intro _
  exact (ensures_updateUserFields rid _).mono (fun _ _ h => Effect.of_eq h) fun _ _ h => h

theorem meets_deleteUser (rid : String) : Meets ctx op (deleteUser ctx rid) s := by
  simp only [Meets, deleteUser, ensures_bind, ensures_pure]
  exact (ensures_updateUserFields rid _).mono (fun _ _ h => Effect.of_eq h) fun _ _ h => h

theorem meets_resetPassword (rid newPassword : String) : Meets ctx op (resetPassword cfg ctx rid newPassword) s := by
  simp only [Meets, resetPassword, ensures_bind, ensures_pure]
  refine (ensures_requireStrength newPassword).mono ?_ fun _ _ h => by rw [h]
  rintro _ s' rfl
  exact (ensures_updateUserFields rid _).mono (fun _ _ h => Effect.of_eq h) fun _ _ h => h

theorem meets_createTenant (req : CreateTenantRequest) :
    Meets ctx (.createTenant req) (createTenant ctx req) s := by
  simp only [Meets, createTenant, ensures_bind, ensures_flush, ensures_pure, implies_true, and_true]
  intro db hdb db' hdb'
  obtain ⟨hnew, husers, htenants, hmemberships, _, hroles⟩ := Database.insertTenant_ok hdb
  obtain ⟨_, hu, _, husers', htenants', hmemberships', _, hroles'⟩ := Database.insertMembership_ok hdb'
  rw [husers] at hu
  have heffect : Effect ctx s _ _ := .addTenant req hnew hu
  simpa [Server.authz, husers', husers, htenants', htenants, hmemberships', hmemberships, hroles', hroles] using heffect

theorem ensures_updateTenantFields (rid : String) (fields : TenantFields) :
    (updateTenantFields ctx rid fields).Ensures s (fun _ s' => s'.authz = s.authz)
      fun _ s' => s'.enforcer = s.enforcer := by
  simp only [updateTenantFields, ensures_bind, ensures_execute, ensures_query, ensures_orRaise, implies_true, and_true]
  exact fun _ _ => authz_execute_updateTenant rid fields ctx.now

theorem meets_updateTenant (rid : String) (req : UpdateTenantRequest) :
    Meets ctx op (updateTenant ctx rid req) s := by
  simp only [Meets, updateTenant, ensures_bind, ensures_require, ensures_pure, implies_true, and_true]
  intro _
  exact (ensures_updateTenantFields rid _).mono (fun _ _ h => Effect.of_eq h) fun _ _ h => h

theorem meets_deleteTenant (rid : String) : Meets ctx op (deleteTenant ctx rid) s := by
  simp only [Meets, deleteTenant, ensures_bind, ensures_pure]
  exact (ensures_updateTenantFields rid _).mono (fun _ _ h => Effect.of_eq h) fun _ _ h => h

theorem meets_switchTenant (hfresh : ctx.FreshToken cfg s.db) (tenantRid : String) :
    Meets ctx (.switchTenant tenantRid) (switchTenant cfg ctx tenantRid) s := by
  simp only [Meets, switchTenant, ensures_bind, ensures_query, ensures_orRaise, ensures_enforce, ensures_pure,
    implies_true, and_true]
  intro m hm tenant htenant
  obtain ⟨hmem, hkey⟩ := Database.getMembership_mem hm
  obtain ⟨htmem, _⟩ := Database.getTenant_mem (Option.filter_eq_some_iff.mp htenant).1
  have hmu : m.userRid = ctx.userId := congrArg Prod.fst hkey
  have hu : ctx.userId ∈ s.db.users.map User.rid := hmu ▸ s.db.membershipUsers m hmem
  have ht : tenant.rid ∈ s.db.tenants.map Tenant.rid := List.mem_map_of_mem htmem
  refine (ensures_issueRefreshToken (s := { s with enforcer := s.enforcer.syncUserRole ctx.userId m.role }) hfresh hu
    ht).mono ?_ fun _ _ h => h.elim
  rintro raw s' ⟨husers, htenants, hmemberships, hroles, henforcer⟩
  have heffect : Effect ctx s _ _ := .sync (.switchTenant tenantRid) trivial m hmem
  simpa [Server.authz, husers, htenants, hmemberships, hroles, henforcer, hmu] using heffect

theorem meets_addMember (tenantRid : String) (req : AddMemberRequest) :
    Meets ctx (.addMember tenantRid req) (addMember ctx tenantRid req) s := by
  simp only [Meets, addMember, ensures_bind, ensures_query, ensures_orRaise, ensures_require, ensures_flush,
    ensures_enforce, ensures_pure, implies_true, and_true]
  intro _ _ user _ _ db hdb
  obtain ⟨hnew, hu, ht, husers, htenants, hmemberships, _, hroles⟩ := Database.insertMembership_ok hdb
  have heffect : Effect ctx s _ _ := .addMember tenantRid req hnew hu ht
  simpa [Server.authz, husers, htenants, hmemberships, hroles] using heffect

theorem meets_updateMemberRole (tenantRid userRid : String) (role : SystemRole) :
    Meets ctx (.updateMemberRole tenantRid userRid role) (updateMemberRole tenantRid userRid role) s := by
  simp only [Meets, updateMemberRole, replaceUserRole, ensures_bind, ensures_query, ensures_orRaise, ensures_execute,
    ensures_enforce, ensures_pure, implies_true, and_true]
  intro m hm updated _
  obtain ⟨hmem, hkey⟩ := Database.getMembership_mem hm
  obtain ⟨rfl, rfl⟩ := Prod.mk.inj hkey
  have huser : s.db.getUser m.userRid ≠ none := Database.getUser_of_member hmem
  constructor
  · intro user _
    exact .setRole _ m role.name hmem (.inl ⟨role, rfl, rfl⟩)
  · exact fun hnone => absurd hnone huser

theorem meets_removeMember (tenantRid userRid : String) :
    Meets ctx (.removeMember tenantRid userRid) (removeMember tenantRid userRid) s := by
  simp only [Meets, removeMember, ensures_bind, ensures_query, ensures_orRaise, ensures_require, ensures_execute,
    ensures_enforce, implies_true, and_true]
  intro m hm hadmin
  obtain ⟨hmem, hkey⟩ := Database.getMembership_mem hm
  obtain ⟨rfl, rfl⟩ := Prod.mk.inj hkey
  exact .removeMember m hmem hadmin

theorem meets_createRole (req : CreateRoleRequest) : Meets ctx (.createRole req) (createRole ctx req) s := by
  simp only [Meets, createRole, ensures_bind, ensures_query, ensures_require, ensures_flush, ensures_enforce,
    ensures_pure, implies_true, and_true]
  intro _ db hdb
  obtain ⟨_, hkey, husers, htenants, hmemberships, _, hroles⟩ := Database.insertRole_ok hdb
  have heffect : Effect ctx s _ _ := .createRole req _ rfl rfl rfl hkey
  simpa [Server.authz, husers, htenants, hmemberships, hroles] using heffect

theorem getRole_setRow {rows : List CustomRole} {role : CustomRole} {fields : RoleFields} {now : Time}
    (h : rows.find? (fun r => decide (r.rid = role.rid)) = some role) :
    (setRow CustomRole.rid role.rid (CustomRole.set fields now) rows).find? (fun r => decide (r.rid = role.rid)) =
      some (role.set fields now) := by
  have hpred : ((fun r : CustomRole => decide (r.rid = role.rid)) ∘ fun r =>
      if r.rid = role.rid then r.set fields now else r) = fun r => decide (r.rid = role.rid) := by
    funext r
    by_cases hr : r.rid = role.rid <;> simp [hr, CustomRole.set]
  rw [setRow, List.find?_map, hpred, h]
  simp

theorem meets_updateRole (rid : String) (req : UpdateRoleRequest) :
    Meets ctx (.updateRole rid req) (updateRole ctx rid req) s := by
  simp only [Meets, updateRole, ensures_bind, ensures_query, ensures_orRaise, ensures_require, ensures_flush,
    ensures_enforce, ensures_pure, implies_true, and_true]
  intro role hrole hsystem _ _ db hdb updated hupdated
  obtain ⟨hmem, rfl⟩ := Database.getRole_mem hrole
  obtain ⟨husers, htenants, hmemberships, _, hroles⟩ := Database.updateRole_ok hdb
  rw [Database.getRole, hroles, getRole_setRow hrole] at hupdated
  obtain rfl := Option.some.inj hupdated
  have heffect : Effect ctx s _ _ := .updateRole req role
    ⟨req.name.map Subtype.val, req.description, req.permissions⟩ hmem hsystem rfl
  simpa [Server.authz, husers, htenants, hmemberships, hroles] using heffect

theorem meets_deleteRole (rid : String) : Meets ctx (.deleteRole rid) (deleteRole rid) s := by
  simp only [Meets, deleteRole, ensures_bind, ensures_query, ensures_orRaise, ensures_require, ensures_execute,
    ensures_enforce, implies_true, and_true]
  intro role hrole hsystem
  obtain ⟨hmem, rfl⟩ := Database.getRole_mem hrole
  exact .deleteRole role hmem hsystem

theorem meets_assignRoleToUser (userRid roleName : String) :
    Meets ctx (.assignRoleToUser userRid roleName) (assignRoleToUser ctx userRid roleName) s := by
  simp only [Meets, assignRoleToUser, replaceUserRole, ensures_bind, ensures_query, ensures_orRaise, ensures_execute,
    ensures_enforce, implies_true, and_true]
  intro m hm
  obtain ⟨hmem, hkey⟩ := Database.getMembership_mem hm
  obtain rfl : m.userRid = userRid := congrArg Prod.fst hkey
  have ht : m.tenantRid = ctx.tenantId := congrArg Prod.snd hkey
  have heffect : Effect ctx s _ _ := .setRole (.assignRoleToUser m.userRid roleName) m roleName hmem (.inr ⟨rfl, ht⟩)
  rw [hkey] at heffect
  exact heffect

/-! ## SSO -/

/-- What provisioning makes of the tables: nothing, a membership, or a user with a membership. -/
inductive Provisioned (ctx : Ctx) (a : Authz) (tenantRid : String) (userRid : String) : Authz → Prop
  | existing (hold : (userRid, tenantRid) ∈ a.memberships.map Membership.key) : Provisioned ctx a tenantRid userRid a
  | member (hnew : (userRid, tenantRid) ∉ a.memberships.map Membership.key) :
      Provisioned ctx a tenantRid userRid
        { a with memberships := a.memberships ++ [⟨userRid, tenantRid, "member", false, ctx.now⟩] }
  | user (hrid : userRid = generateRid "user" (ctx.uuids 0)) (hnew : userRid ∉ a.users) :
      Provisioned ctx a tenantRid userRid { a with
        users := a.users ++ [userRid]
        memberships := a.memberships ++ [⟨userRid, tenantRid, "member", true, ctx.now⟩] }

theorem ensures_updateDisplayName (user : User) (name : String) (hu : user ∈ s.db.users) :
    (updateDisplayName ctx user name).Ensures s
      (fun u s' => u ∈ s'.db.users ∧ u.rid = user.rid ∧ u.status = user.status ∧ s'.authz = s.authz ∧
        s'.db.tenants = s.db.tenants ∧ s'.db.refreshTokens = s.db.refreshTokens)
      fun _ s' => s'.enforcer = s.enforcer := by
  unfold updateDisplayName
  split
  · exact ⟨hu, rfl, rfl, rfl, rfl, rfl⟩
  · simp only [ensures_bind, ensures_execute, ensures_query, ensures_orRaise, implies_true, and_true]
    intro u hfound
    obtain ⟨hmem, hrid⟩ := Database.getUser_mem hfound
    refine ⟨hmem, hrid, ?_, authz_execute_updateUser _ _ _, rfl, rfl⟩
    obtain ⟨u₀, hu₀, rfl⟩ := mem_setRow.mp hmem
    have hsame : u₀ = user := by
      refine List.inj_on_of_nodup_map s.db.userKeys hu₀ hu ?_
      by_cases h : u₀.rid = user.rid
      · exact h
      · rwa [if_neg h] at hrid
    subst hsame
    simp [User.set]

theorem ensures_ensureMembership {userRid tenantRid : String} :
    (ensureMembership ctx userRid tenantRid).Ensures s
      (fun _ s' => Provisioned ctx s.authz tenantRid userRid s'.authz ∧ s'.db.users = s.db.users ∧
        s'.db.tenants = s.db.tenants ∧ s'.db.refreshTokens = s.db.refreshTokens ∧ s'.enforcer = s.enforcer)
      fun _ s' => s'.enforcer = s.enforcer := by
  unfold ensureMembership
  simp only [ensures_bind, ensures_query]
  split
  · simp only [ensures_flush, implies_true, and_true]
    intro db hdb
    obtain ⟨hnew, _, _, husers, htenants, hmemberships, htokens, hroles⟩ := Database.insertMembership_ok hdb
    refine ⟨?_, husers, htenants, htokens⟩
    have hprovisioned : Provisioned ctx s.authz _ _ _ := .member hnew
    simpa [Server.authz, husers, htenants, hmemberships, hroles] using hprovisioned
  · rename_i hfound
    obtain ⟨m, hm⟩ := Option.ne_none_iff_exists'.mp hfound
    obtain ⟨hmem, hkey⟩ := Database.getMembership_mem hm
    exact ⟨.existing (List.mem_map.mpr ⟨m, hmem, hkey⟩), rfl, rfl, rfl, rfl⟩

theorem ensures_provisionUser (userinfo : OidcUserInfo) (tenantRid : String) :
    (provisionUser ctx userinfo tenantRid).Ensures s
      (fun u s' => u ∈ s'.db.users ∧ Provisioned ctx s.authz tenantRid u.rid s'.authz ∧
        ((∃ user, s.db.getByEmail userinfo.email = some user ∧ user.rid = u.rid ∧ user.status = u.status) ∨
          s.db.getByEmail userinfo.email = none ∧ u.rid ∉ s.authz.users) ∧
        s'.db.tenants = s.db.tenants ∧ s'.db.refreshTokens = s.db.refreshTokens ∧ s'.enforcer = s.enforcer)
      fun _ s' => s'.enforcer = s.enforcer := by
  simp only [provisionUser, ensures_bind, ensures_query]
  split
  · rename_i user huser
    obtain ⟨hmem, _⟩ := Database.getByEmail_mem huser
    simp only [ensures_bind]
    refine (ensures_updateDisplayName user userinfo.name hmem).mono ?_ fun _ _ h => h
    rintro u s₁ ⟨hu, hrid, hstatus, hauthz, htenants, htokens⟩
    have henforcer : s₁.enforcer = s.enforcer := congrArg Authz.enforcer hauthz
    refine ensures_ensureMembership.mono ?_ fun _ _ h => h.trans henforcer
    rintro _ s₂ ⟨hprovisioned, husers, htenants₂, htokens₂, henforcer₂⟩
    rw [hauthz] at hprovisioned
    exact ⟨by rw [husers]; exact hu, hprovisioned, .inl ⟨user, huser, hrid.symm, hstatus.symm⟩,
      htenants₂.trans htenants, htokens₂.trans htokens,
      henforcer₂.trans henforcer⟩
  · rename_i hnone
    simp only [provisionNewUser, ensures_bind, ensures_flush, ensures_pure, implies_true, and_true]
    intro db hdb db' hdb'
    obtain ⟨hnew, husers, htenants, hmemberships, htokens, hroles⟩ := Database.insertUser_ok hdb
    obtain ⟨_, _, _, husers', htenants', hmemberships', htokens', hroles'⟩ := Database.insertMembership_ok hdb'
    refine ⟨by simp [husers', husers], ?_, .inr ⟨hnone, hnew⟩, htenants'.trans htenants, htokens'.trans htokens⟩
    have hprovisioned : Provisioned ctx s.authz tenantRid _ _ := .user rfl hnew
    simpa [Server.authz, husers', husers, htenants', htenants, hmemberships', hmemberships, hroles', hroles]
      using hprovisioned

theorem newestTenant_mem {db : Database} {t : Tenant} (h : db.newestTenant = some t) : t ∈ db.tenants := by
  have hmem : t ∈ newestFirst Tenant.createdAt db.tenants := List.mem_of_mem_head? (Option.mem_def.mpr h)
  exact (List.perm_insertionSort _ _).mem_iff.mp hmem

/-- Provisioning, then syncing the role of the chosen membership. -/
theorem effect_of_provisioned {a : Authz} {tenant : Tenant} {userRid : String} {m : Membership}
    {userinfo : OidcUserInfo} (ht : s.db.newestTenant = some tenant) (hset : userinfo.email ≠ "")
    (hemail : (∃ user, s.db.getByEmail userinfo.email = some user ∧ user.rid = userRid ∧ user.status ≠ .disabled) ∨
      userRid ∉ s.authz.users)
    (hu : userRid ∈ a.users) (hp : Provisioned ctx s.authz tenant.rid userRid a) (hm : Chosen a.memberships userRid m) :
    Effect ctx s (.ssoCallback (.ok userinfo)) { a with enforcer := a.enforcer.syncUserRole userRid m.role } := by
  have htenant : tenant.rid ∈ s.authz.tenants := List.mem_map_of_mem (newestTenant_mem ht)
  cases hp with
  | existing =>
    rw [← hm.mem.2]
    exact .sync (.ssoCallback _) trivial m hm.mem.1
  | member hnew =>
    rcases hemail with ⟨user, hfound, hrid, hactive⟩ | habsent
    · exact .provision _ userRid tenant.rid m hu htenant
        ⟨userinfo, user, tenant, rfl, hset, hfound, hrid, hactive, ht, rfl⟩ hnew hm
    · exact absurd hu habsent
  | user hrid hnew =>
    -- the only membership of the new user is the new one
    have hold : ∀ m ∈ s.authz.memberships, m.userRid ≠ userRid :=
      fun m hm he => hnew (he ▸ s.db.membershipUsers m hm)
    have hrole : m.role = SystemRole.member.name := by
      rcases List.mem_append.mp hm.mem.1 with h | h
      · exact absurd hm.mem.2 (hold m h)
      · rw [List.mem_singleton.mp h]
        rfl
    subst hrid
    rw [hrole]
    exact .addUser _ tenant.rid .member hnew htenant (.inr ⟨_, rfl⟩)

theorem meets_ssoCallback (hfresh : ctx.FreshToken cfg s.db) (exchanged : Except Exc OidcUserInfo) :
    Meets ctx (.ssoCallback exchanged) (ssoCallback cfg ctx exchanged) s := by
  simp only [Meets, ssoCallback, ensures_bind, ensures_query, ensures_orRaise, ensures_ofExcept, ensures_require,
    implies_true, and_true]
  rintro _ userinfo rfl hset tenant htenant
  refine (ensures_provisionUser userinfo tenant.rid).mono ?_ fun _ _ h => h
  rintro user s₁ ⟨hu, hprovisioned, hemail, -, htokens, henforcer⟩
  refine ⟨fun hactive => ?_, fun _ => henforcer⟩
  refine (ensures_tokenMembership user.rid _).mono ?_ fun _ s' h => by rw [h, henforcer]
  rintro m s' ⟨hs', hchosen⟩
  rw [hs']
  have hfresh₁ : ctx.FreshToken cfg s₁.db := by rwa [Ctx.FreshToken, htokens]
  have hu₁ : user.rid ∈ s₁.db.users.map User.rid := List.mem_map_of_mem hu
  refine (ensures_issueTokens hfresh₁ hu₁).mono ?_ fun _ _ h => h.trans henforcer
  rintro r s₂ ⟨hauthz, -⟩
  rw [hauthz]
  refine effect_of_provisioned htenant hset (hemail.imp ?_ And.right) hu₁ hprovisioned hchosen
  rintro ⟨user₀, hfound, hrid, hstatus⟩
  exact ⟨user₀, hfound, hrid, hstatus ▸ hactive⟩

/-! ## Calls -/

/-- Every call does one of the listed things, or raises and does none. -/
theorem meets_op (op : Op) (hfresh : op.SignsIn → ctx.FreshToken cfg s.db) : Meets ctx op (op.run cfg ctx) s := by
  cases op <;> simp only [Op.run, Meets, ensures_bind, ensures_pure]
  case login email password => exact meets_login (hfresh trivial) email password
  case logout payload raw => exact meets_logout payload raw
  case refresh raw => exact meets_refresh raw
  case ssoCallback exchanged => exact meets_ssoCallback (hfresh trivial) exchanged
  case changePassword req => exact meets_changePassword req
  case createUser req => exact meets_createUser req
  case updateUser rid req => exact meets_updateUser rid req
  case deleteUser rid => exact meets_deleteUser rid
  case resetPassword rid password => exact meets_resetPassword rid password
  case createTenant req => exact meets_createTenant req
  case updateTenant rid req => exact meets_updateTenant rid req
  case deleteTenant rid => exact meets_deleteTenant rid
  case switchTenant tenantRid => exact meets_switchTenant (hfresh trivial) tenantRid
  case addMember tenantRid req => exact meets_addMember tenantRid req
  case updateMemberRole tenantRid userRid role => exact meets_updateMemberRole tenantRid userRid role
  case removeMember tenantRid userRid => exact meets_removeMember tenantRid userRid
  case createRole req => exact meets_createRole req
  case updateRole rid req => exact meets_updateRole rid req
  case deleteRole rid => exact meets_deleteRole rid
  case assignRoleToUser userRid role => exact meets_assignRoleToUser userRid role

theorem next_call_ok {op : Op} {reply : Reply} {s' : Server} (h : (op.run cfg ctx).run s = (.ok reply, s')) :
    s.next cfg (.call ctx op) = s' := by
  simp only [Server.next, serve, h]

theorem next_call_error {op : Op} {e : Exc} {s' : Server} (h : (op.run cfg ctx).run s = (.error e, s')) :
    s.next cfg (.call ctx op) = { s' with db := s.db } := by
  simp only [Server.next, serve, h]

theorem effect_of_call (op : Op) (hfresh : op.SignsIn → ctx.FreshToken cfg s.db) :
    Effect ctx s op (s.next cfg (.call ctx op)).authz := by
  have hmeets := meets_op op hfresh
  cases hrun : (op.run cfg ctx).run s with
  | mk r s' =>
    cases r with
    | ok reply =>
      rw [next_call_ok hrun]
      exact hmeets.ok hrun
    | error e =>
      rw [next_call_error hrun]
      have henforcer := hmeets.error hrun
      refine Effect.of_eq ?_
      simp [Server.authz, henforcer]

end Methods
end Lingshu.Setting
