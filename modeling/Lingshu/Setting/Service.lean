import Lingshu.Interaction.Proc
import Lingshu.Setting.Database
import Lingshu.Setting.Enforcer

/-! # SettingServiceImpl

The methods of `service.py` that change the tables or the rules, with `jit_provisioning.py`. A method works on one
database session, which the caller commits when the method returns and rolls back when it raises; the rules in
memory are not rolled back. -/
namespace Lingshu.Setting
open Interaction Proc
set_option autoImplicit false

/-- The tables, the rules in memory, and the `jti`s on the blacklist in Redis. -/
structure Server where
  db : Database
  enforcer : PermissionEnforcer
  blacklist : List String

abbrev Session := Proc Server Exc

def query {α : Type} (f : Database → α) : Session α := read fun s => f s.db

/-- A statement that no constraint can refuse. -/
def execute (f : Database → Database) : Session Unit := update fun s => { s with db := f s.db }

def flush (f : Database → Except Exc Database) : Session Unit :=
  tryUpdate fun s => (fun db => { s with db := db }) <$> f s.db

def enforce (f : PermissionEnforcer → PermissionEnforcer) : Session Unit :=
  update fun s => { s with enforcer := f s.enforcer }

def userNotFound : Exc := .app .settingUserNotFound "User not found"

def tenantNotFound : Exc := .app .commonNotFound "Tenant not found"

def membershipNotFound : Exc := .app .commonNotFound "Membership not found"

def roleNotFound : Exc := .app .commonNotFound "Role not found"

def noFields : Exc := .app .commonInvalidInput "No fields to update"

def invalidCredentials : Exc := .app .settingAuthInvalidCredentials "Invalid email or password"

section Methods
variable (cfg : Config) (ctx : Ctx)

/-! ## Tokens -/

/-- `issue_access_token`. -/
def issueAccessToken (userRid tenantRid role jti : String) : TokenPayload :=
  ⟨userRid, tenantRid, role, jti, ctx.now, ctx.now + cfg.accessTtl⟩

/-- `issue_refresh_token`, and the row that is kept of it. -/
def issueRefreshToken (userRid tenantRid : String) : Session String := do
  flush fun db => db.insertRefreshToken
    { tokenHash := cfg.sha256 ctx.rawToken, userRid := userRid, tenantRid := tenantRid,
      expiresAt := ctx.now + cfg.refreshTtl }
  return ctx.rawToken

/-- The membership that decides the tenant of a login: the default one, else the first. -/
def tokenMembership (userRid noMembership : String) : Session Membership := do
  let default ← query fun db => db.getDefaultTenant userRid
  let default ← ofExcept default
  let memberships ← query fun db => db.listByUser userRid
  orRaise (default.or memberships.head?) (.app .commonInternalError noMembership)

/-- The end of `login` and `sso_callback`. -/
def issueTokens (user : User) (membership : Membership) (jti : String) :
    Session (UserResponse × TokenPayload × String) := do
  let tenant ← query fun db => db.getTenant membership.tenantRid
  let tenant ← orRaise tenant (.app .commonInternalError "Tenant not found")
  enforce fun e => e.syncUserRole user.rid membership.role
  let refreshRaw ← issueRefreshToken cfg ctx user.rid tenant.rid
  return (user.response (some membership.role) (some tenant.brief),
    issueAccessToken cfg ctx user.rid tenant.rid membership.role jti, refreshRaw)

def login (email password : String) : Session (UserResponse × TokenPayload × String) := do
  let user ← query fun db => db.getByEmail email
  let user ← orRaise user invalidCredentials
  let verified ← ofExcept (cfg.checkpw password user.passwordHash)
  require (verified = true) invalidCredentials
  require (user.status ≠ .disabled) (.app .settingPermissionDenied "User account is disabled")
  let membership ← tokenMembership user.rid "User has no tenant membership"
  issueTokens cfg ctx user membership (ctx.uuids 0)

/-- `revoke_token`; a token that has expired need not be kept. -/
def revokeToken (payload : TokenPayload) : Session Unit :=
  update fun s => if ctx.now < payload.exp then { s with blacklist := s.blacklist ++ [payload.jti] } else s

/-- `logout`, for what `validate_token` returns of the access token. -/
def logout (payload : Option TokenPayload) (refreshRaw : Option String) : Session Unit := do
  match payload with
  | some payload => revokeToken ctx payload
  | none => pure ()
  match refreshRaw with
  | none | some "" => pure ()
  | some raw => execute fun db => db.revokeRefreshToken (cfg.sha256 raw) ctx.now

def tokenExpired : Exc := .app .settingAuthTokenExpired "Refresh token is invalid or expired"

def refresh (refreshRaw : String) : Session (TokenPayload × String) := do
  let refreshHash := cfg.sha256 refreshRaw
  let token ← query fun db => db.getByHash refreshHash
  let token ← orRaise token tokenExpired
  let valid ← ofExcept (token.isValid cfg.awareDatetimes ctx.now)
  require (valid = true) tokenExpired
  execute fun db => db.revokeRefreshToken refreshHash ctx.now
  let membership ← query fun db => db.getMembership token.userRid token.tenantRid
  let role := (membership.map Membership.role).getD "member"
  let newRefreshRaw ← issueRefreshToken cfg ctx token.userRid token.tenantRid
  return (issueAccessToken cfg ctx token.userRid token.tenantRid role (ctx.uuids 0), newRefreshRaw)

/-! ## Users -/

/-- `if error: raise`. -/
def requireStrength (password : String) : Session Unit :=
  match validatePasswordStrength cfg.isDecimal password with
  | none => return ()
  | some message => raise (.app .commonInvalidInput message)

/-- `update_fields`, and the row read back. -/
def updateUserFields (rid : String) (fields : UserFields) : Session User := do
  execute fun db => db.updateUser rid fields ctx.now
  let user ← query fun db => db.getUser rid
  orRaise user userNotFound

def changePassword (req : ChangePasswordRequest) : Session Unit := do
  let user ← query fun db => db.getUser ctx.userId
  let user ← orRaise user userNotFound
  let verified ← ofExcept (cfg.checkpw req.currentPassword user.passwordHash)
  require (verified = true) (.app .settingAuthInvalidCredentials "Current password is incorrect")
  requireStrength cfg req.newPassword
  let _ ← updateUserFields ctx user.rid { passwordHash := some (cfg.hashpw ctx.salt req.newPassword) }
  return ()

def createUser (req : CreateUserRequest) : Session UserResponse := do
  let existing ← query fun db => db.getByEmail req.email
  require (existing = none) (.app .settingUserEmailExists ("Email " ++ req.email ++ " is already registered"))
  requireStrength cfg req.password
  let userRid := generateRid "user" (ctx.uuids 0)
  let user : User := ⟨userRid, req.email, req.displayName, cfg.hashpw ctx.salt req.password, .active, ctx.now, ctx.now⟩
  flush fun db => db.insertUser user
  flush fun db => db.insertMembership ⟨userRid, ctx.tenantId, req.role.name, true, ctx.now⟩
  enforce fun e => e.syncUserRole userRid req.role.name
  return user.response (some req.role.name) none

def updateUser (rid : String) (req : UpdateUserRequest) : Session UserResponse := do
  require (req.displayName.isSome ∨ req.status.isSome) noFields
  let user ← updateUserFields ctx rid { displayName := req.displayName.map Subtype.val, status := req.status }
  return user.response none none

def deleteUser (rid : String) : Session Unit := do
  let _ ← updateUserFields ctx rid { status := some .disabled }
  return ()

def resetPassword (rid newPassword : String) : Session Unit := do
  requireStrength cfg newPassword
  let _ ← updateUserFields ctx rid { passwordHash := some (cfg.hashpw ctx.salt newPassword) }
  return ()

/-! ## Tenants -/

/-- `update_fields`, and the row read back. -/
def updateTenantFields (rid : String) (fields : TenantFields) : Session Tenant := do
  execute fun db => db.updateTenant rid fields ctx.now
  let tenant ← query fun db => db.getTenant rid
  orRaise tenant tenantNotFound

def createTenant (req : CreateTenantRequest) : Session TenantResponse := do
  let tenantRid := generateRid "tenant" (ctx.uuids 0)
  let tenant : Tenant := ⟨tenantRid, req.displayName, .active, req.config.getD (.dict []), ctx.now, ctx.now⟩
  flush fun db => db.insertTenant tenant
  flush fun db => db.insertMembership ⟨ctx.userId, tenantRid, "admin", false, ctx.now⟩
  return tenant.response

def updateTenant (rid : String) (req : UpdateTenantRequest) : Session TenantResponse := do
  require (req.displayName.isSome ∨ req.status.isSome ∨ req.config.isSome) noFields
  let tenant ← updateTenantFields ctx rid
    { displayName := req.displayName.map Subtype.val, status := req.status, config := req.config }
  return tenant.response

def deleteTenant (rid : String) : Session Unit := do
  let _ ← updateTenantFields ctx rid { status := some .disabled }
  return ()

def switchTenant (tenantRid : String) : Session (TokenPayload × String × String) := do
  let membership ← query fun db => db.getMembership ctx.userId tenantRid
  let membership ← orRaise membership (.app .settingPermissionDenied "You are not a member of this tenant")
  let tenant ← query fun db => db.getTenant tenantRid
  let tenant ← orRaise (tenant.filter fun t => t.status = .active)
    (.app .commonNotFound "Tenant not found or disabled")
  enforce fun e => e.syncUserRole ctx.userId membership.role
  let refreshRaw ← issueRefreshToken cfg ctx ctx.userId tenant.rid
  return (issueAccessToken cfg ctx ctx.userId tenant.rid membership.role (ctx.uuids 0), refreshRaw, membership.role)

/-! ## Members -/

def addMember (tenantRid : String) (req : AddMemberRequest) : Session MemberResponse := do
  let tenant ← query fun db => db.getTenant tenantRid
  let _ ← orRaise tenant tenantNotFound
  let user ← query fun db => db.getUser req.userRid
  let user ← orRaise user userNotFound
  let existing ← query fun db => db.getMembership req.userRid tenantRid
  require (existing = none) (.app .commonConflict "User is already a member of this tenant")
  let membership : Membership := ⟨req.userRid, tenantRid, req.role.name, false, ctx.now⟩
  flush fun db => db.insertMembership membership
  enforce fun e => e.syncUserRole req.userRid req.role.name
  return membership.response user

/-- The enforcer's part of a change of role: remove the old one, add the new. -/
def replaceUserRole (userRid oldRole newRole : String) : Session Unit :=
  enforce fun e => (e.removeUserRole userRid oldRole).syncUserRole userRid newRole

def updateMemberRole (tenantRid userRid : String) (role : SystemRole) : Session MemberResponse := do
  let membership ← query fun db => db.getMembership userRid tenantRid
  let membership ← orRaise membership membershipNotFound
  execute fun db => db.updateMembershipRole userRid tenantRid role.name
  let updated ← query fun db => db.getMembership userRid tenantRid
  let updated ← orRaise updated (.app .commonInternalError "Failed to update membership role")
  replaceUserRole userRid membership.role role.name
  let user ← query fun db => db.getUser userRid
  let user ← orRaise user userNotFound
  return updated.response user

def removeMember (tenantRid userRid : String) : Session Unit := do
  let membership ← query fun db => db.getMembership userRid tenantRid
  let membership ← orRaise membership membershipNotFound
  let members ← query fun db => db.listByTenant tenantRid
  require (membership.role = "admin" → 1 < members.countP fun m => m.role = "admin")
    (.app .commonInvalidInput "Cannot remove the last admin from a tenant")
  enforce fun e => e.removeUserRole userRid membership.role
  execute fun db => db.deleteMembership userRid tenantRid

/-! ## Roles -/

def nameTaken (name : String) : Exc :=
  .app .commonConflict ("Role with name '" ++ name ++ "' already exists in this tenant")

def createRole (req : CreateRoleRequest) : Session RoleResponse := do
  let existing ← query fun db => db.getByName ctx.tenantId req.name
  require (existing = none) (nameTaken req.name)
  let role : CustomRole := ⟨generateRid "role" (ctx.uuids 0), ctx.tenantId, req.name, req.description, req.permissions,
    false, ctx.now, ctx.now⟩
  flush fun db => db.insertRole role
  enforce fun e => e.addCustomRolePolicies req.name req.permissions
  return roleToResponse role

def updateRole (rid : String) (req : UpdateRoleRequest) : Session RoleResponse := do
  let role ← query fun db => db.getRole rid
  let role ← orRaise role roleNotFound
  require (role.isSystem = false) (.app .settingPermissionDenied "System roles cannot be modified")
  let existing ← query fun db => req.name.bind fun name => db.getByName ctx.tenantId name
  require (∀ r ∈ existing, r.rid = rid) (nameTaken ((req.name.map Subtype.val).getD ""))
  require (req.name.isSome ∨ req.description.isSome ∨ req.permissions.isSome) noFields
  flush fun db => db.updateRole rid
    { name := req.name.map Subtype.val, description := req.description, permissions := req.permissions } ctx.now
  let updated ← query fun db => db.getRole rid
  let updated ← orRaise updated roleNotFound
  enforce fun e => (e.removeRolePolicies role.name).addCustomRolePolicies updated.name updated.permissions
  return roleToResponse updated

def deleteRole (rid : String) : Session Unit := do
  let role ← query fun db => db.getRole rid
  let role ← orRaise role roleNotFound
  require (role.isSystem = false) (.app .settingPermissionDenied "System roles cannot be deleted")
  enforce fun e => e.removeRolePolicies role.name
  execute fun db => db.deleteRole rid

def assignRoleToUser (userRid roleName : String) : Session Unit := do
  let membership ← query fun db => db.getMembership userRid ctx.tenantId
  let membership ← orRaise membership membershipNotFound
  execute fun db => db.updateMembershipRole userRid ctx.tenantId roleName
  replaceUserRole userRid membership.role roleName

/-! ## SSO -/

/-- Ensure membership exists for this tenant. -/
def ensureMembership (userRid tenantRid : String) : Session Unit := do
  let membership ← query fun db => db.getMembership userRid tenantRid
  if membership = none then
    flush fun db => db.insertMembership ⟨userRid, tenantRid, "member", false, ctx.now⟩
  else return ()

/-- Existing user: update display_name from OIDC claims. -/
def updateDisplayName (user : User) (name : String) : Session User :=
  if user.displayName = name then return user
  else do
    execute fun db => db.updateUser user.rid { displayName := some name } ctx.now
    let user ← query fun db => db.getUser user.rid
    orRaise user (.other "AttributeError")

/-- A new user with a placeholder for the password hash. -/
def provisionNewUser (userinfo : OidcUserInfo) (tenantRid : String) : Session User := do
  let userRid := generateRid "user" (ctx.uuids 0)
  let user : User := ⟨userRid, userinfo.email, userinfo.name, "SSO_MANAGED", .active, ctx.now, ctx.now⟩
  flush fun db => db.insertUser user
  flush fun db => db.insertMembership ⟨userRid, tenantRid, "member", true, ctx.now⟩
  return user

def provisionUser (userinfo : OidcUserInfo) (tenantRid : String) : Session User := do
  let user ← query fun db => db.getByEmail userinfo.email
  match user with
  | some user => do
    let user ← updateDisplayName ctx user userinfo.name
    ensureMembership ctx user.rid tenantRid
    return user
  | none => provisionNewUser ctx userinfo tenantRid

/-- `sso_callback`, for the user info that the IdP returns for the code, or what the exchange raises. -/
def ssoCallback (exchanged : Except Exc OidcUserInfo) : Session (UserResponse × TokenPayload × String) := do
  require (cfg.ssoEnabled = true) (.app .commonInvalidInput "SSO is not configured")
  let userinfo ← ofExcept exchanged
  require (userinfo.email ≠ "")
    (.app .settingAuthInvalidCredentials "OIDC provider did not return an email address")
  let tenant ← query Database.newestTenant
  let tenant ← orRaise tenant (.app .commonInternalError "No tenant available for SSO provisioning")
  let user ← provisionUser ctx userinfo tenant.rid
  require (user.status ≠ .disabled) (.app .settingPermissionDenied "User account is disabled")
  let membership ← tokenMembership user.rid "User has no tenant membership after provisioning"
  issueTokens cfg ctx user membership (ctx.uuids 1)

end Methods
end Lingshu.Setting
