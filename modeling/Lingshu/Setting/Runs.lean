import Lingshu.Interaction.Run
import Lingshu.Setting.Seed

/-! # Runs of the Setting service

Calls of the methods one after the other, each in a transaction of its own, with restarts of the process and
changes of the order in which rows come back. -/
namespace Lingshu.Setting
open Interaction Proc
set_option autoImplicit false

/-! ## Calls -/

inductive Op where
  | login (email password : String)
  | logout (payload : Option TokenPayload) (refreshRaw : Option String)
  | refresh (refreshRaw : String)
  | ssoCallback (exchanged : Except Exc OidcUserInfo)
  | changePassword (req : ChangePasswordRequest)
  | createUser (req : CreateUserRequest)
  | updateUser (rid : String) (req : UpdateUserRequest)
  | deleteUser (rid : String)
  | resetPassword (rid newPassword : String)
  | createTenant (req : CreateTenantRequest)
  | updateTenant (rid : String) (req : UpdateTenantRequest)
  | deleteTenant (rid : String)
  | switchTenant (tenantRid : String)
  | addMember (tenantRid : String) (req : AddMemberRequest)
  | updateMemberRole (tenantRid userRid : String) (role : SystemRole)
  | removeMember (tenantRid userRid : String)
  | createRole (req : CreateRoleRequest)
  | updateRole (rid : String) (req : UpdateRoleRequest)
  | deleteRole (rid : String)
  | assignRoleToUser (userRid roleName : String)

inductive Reply where
  | loggedIn (user : UserResponse) (accessToken : TokenPayload) (refreshRaw : String)
  | refreshed (accessToken : TokenPayload) (refreshRaw : String)
  | switched (accessToken : TokenPayload) (refreshRaw role : String)
  | user (user : UserResponse)
  | tenant (tenant : TenantResponse)
  | member (member : MemberResponse)
  | role (role : RoleResponse)
  | done

/-- The access token that the call returns. -/
def Reply.accessToken : Reply → Option TokenPayload
  | .loggedIn _ payload _ | .refreshed payload _ | .switched payload _ _ => some payload
  | _ => none

def Op.run (cfg : Config) (ctx : Ctx) : Op → Session Reply
  | .login email password => do
    let (user, payload, raw) ← Setting.login cfg ctx email password
    return .loggedIn user payload raw
  | .logout payload raw => do Setting.logout cfg ctx payload raw; return .done
  | .refresh raw => do
    let (payload, raw) ← Setting.refresh cfg ctx raw
    return .refreshed payload raw
  | .ssoCallback exchanged => do
    let (user, payload, raw) ← Setting.ssoCallback cfg ctx exchanged
    return .loggedIn user payload raw
  | .changePassword req => do Setting.changePassword cfg ctx req; return .done
  | .createUser req => do return .user (← Setting.createUser cfg ctx req)
  | .updateUser rid req => do return .user (← Setting.updateUser ctx rid req)
  | .deleteUser rid => do Setting.deleteUser ctx rid; return .done
  | .resetPassword rid password => do Setting.resetPassword cfg ctx rid password; return .done
  | .createTenant req => do return .tenant (← Setting.createTenant ctx req)
  | .updateTenant rid req => do return .tenant (← Setting.updateTenant ctx rid req)
  | .deleteTenant rid => do Setting.deleteTenant ctx rid; return .done
  | .switchTenant tenantRid => do
    let (payload, raw, role) ← Setting.switchTenant cfg ctx tenantRid
    return .switched payload raw role
  | .addMember tenantRid req => do return .member (← Setting.addMember ctx tenantRid req)
  | .updateMemberRole tenantRid userRid role => do
    return .member (← Setting.updateMemberRole tenantRid userRid role)
  | .removeMember tenantRid userRid => do Setting.removeMember tenantRid userRid; return .done
  | .createRole req => do return .role (← Setting.createRole ctx req)
  | .updateRole rid req => do return .role (← Setting.updateRole ctx rid req)
  | .deleteRole rid => do Setting.deleteRole rid; return .done
  | .assignRoleToUser userRid role => do Setting.assignRoleToUser ctx userRid role; return .done

/-! ## Events -/

/-- A session of `get_session`: committed when the procedure returns, rolled back when it raises. -/
def serve {α : Type} (p : Session α) (s : Server) : Except Exc α × Server :=
  match p.run s with
  | (.ok a, s') => (.ok a, s')
  | (.error e, s') => (.error e, { s' with db := s.db })

inductive Event where
  | call (ctx : Ctx) (op : Op)
  | restart (ctx : Ctx)
  /-- From now on queries without an order return the rows so. -/
  | reorder (tenants : List Tenant) (memberships : List Membership)

/-- The process after a start with the tables of `s`. -/
def booted (cfg : Config) (ctx : Ctx) (s : Server) : Except Exc Unit × Server :=
  serve (runSeed cfg ctx) { s with enforcer := .create cfg.rbacEnabled }

def Database.reorder (db : Database) (tenants : List Tenant) (memberships : List Membership) : Database :=
  if h : tenants.Perm db.tenants ∧ memberships.Perm db.memberships then
    { db with
      tenants := tenants
      memberships := memberships
      tenantKeys := (h.1.map Tenant.rid).nodup_iff.mpr db.tenantKeys
      membershipKeys := (h.2.map Membership.key).nodup_iff.mpr db.membershipKeys
      membershipUsers := fun m hm => db.membershipUsers m (h.2.mem_iff.mp hm)
      membershipTenants := fun m hm =>
        (h.1.map Tenant.rid).mem_iff.mpr (db.membershipTenants m (h.2.mem_iff.mp hm))
      tokenTenants := fun k hk => (h.1.map Tenant.rid).mem_iff.mpr (db.tokenTenants k hk) }
  else db

/-- A process that fails to start serves nothing. -/
def Server.next (cfg : Config) (s : Server) : Event → Server
  | .call ctx op => (serve (op.run cfg ctx) s).2
  | .restart ctx =>
    match booted cfg ctx s with
    | (.ok _, s') => s'
    | (.error _, _) => s
  | .reorder tenants memberships => { s with db := s.db.reorder tenants memberships }

/-- Empty tables, and a process that has not been started. -/
def Server.empty (cfg : Config) : Server := ⟨.empty, .create cfg.rbacEnabled, []⟩

/-- The process after its first start. -/
def Server.seeded (cfg : Config) (ctx : Ctx) : Server := (Server.empty cfg).next cfg (.restart ctx)

/-- States that a run after the first start reaches. -/
def Reachable (cfg : Config) (s : Server) : Prop :=
  ∃ ctx es, (booted cfg ctx (Server.empty cfg)).1 = .ok () ∧
    runFrom (Server.next cfg) (Server.seeded cfg ctx) es = s

/-! ## Concrete surroundings -/

/-- Settings whose hashes keep what they hash. -/
def Config.plain : Config where
  rbacEnabled := true
  ssoEnabled := true
  accessTtl := 900
  refreshTtl := 604800
  seedAdminEmail := "admin@example.com"
  seedAdminPassword := "admin123"
  seedTenantName := "Default"
  sha256 raw := raw
  hashpw salt password := salt ++ password
  checkpw password hash := .ok (decide (hash = password))
  isDecimal := Char.isDigit
  awareDatetimes := false

/-- The `n`-th call of a run; its random values are in no other call. -/
def Ctx.plain (userId tenantId : String) (n : ℕ) : Ctx where
  userId := userId
  tenantId := tenantId
  role := "member"
  now := n
  uuids i := String.ofList (List.replicate n 'n' ++ List.replicate i 'i')
  rawToken := String.ofList (List.replicate n 'n')
  salt := ""

theorem fits_branch : 1 ≤ "Branch".length ∧ "Branch".length ≤ 100 := by decide

theorem fits_v : 1 ≤ "V".length ∧ "V".length ≤ 100 := by decide

theorem fits_w : 1 ≤ "W".length ∧ "W".length ≤ 100 := by decide

end Lingshu.Setting
