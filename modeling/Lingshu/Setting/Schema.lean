import Lingshu.Json.Value

/-! # Tables, requests and responses of the Setting module

The rows of `models.py`, the request and response classes, the exceptions, and what a call reads from its
surroundings. The third-party code that the service calls (bcrypt, the IdP, the driver) and the settings are the
fields of `Config`. -/
namespace Lingshu.Setting
open Json
set_option autoImplicit false

/-! ## Rows -/

/-- Seconds. -/
abbrev Time := ℕ

inductive Status where
  | active
  | disabled
  deriving DecidableEq, Repr

/-- An entry of a role's `permissions`; a missing `resource_rid` is no key of the dict. -/
structure Permission where
  resourceType : String
  action : String
  resourceRid : Option String := none
  deriving DecidableEq, Repr

structure User where
  rid : String
  email : String
  displayName : String
  passwordHash : String
  status : Status
  createdAt : Time
  updatedAt : Time
  deriving DecidableEq

structure Tenant where
  rid : String
  displayName : String
  status : Status
  config : Value
  createdAt : Time
  updatedAt : Time
  deriving DecidableEq

/-- `UserTenantMembership`. -/
structure Membership where
  userRid : String
  tenantRid : String
  role : String
  isDefault : Bool
  createdAt : Time
  deriving DecidableEq, Repr

structure RefreshToken where
  tokenHash : String
  userRid : String
  tenantRid : String
  expiresAt : Time
  revokedAt : Option Time := none
  deriving DecidableEq

structure CustomRole where
  rid : String
  tenantId : String
  name : String
  description : Option String
  permissions : List Permission
  isSystem : Bool
  createdAt : Time
  updatedAt : Time
  deriving DecidableEq

/-- The primary key of a membership. -/
def Membership.key (m : Membership) : String × String := (m.userRid, m.tenantRid)

/-- `uq_custom_role_tenant_name`. -/
def CustomRole.key (r : CustomRole) : String × String := (r.tenantId, r.name)

/-- `generate_rid`, for the `uuid` that `uuid4` returned. -/
def generateRid (resourceType uuid : String) : String := "ri." ++ resourceType ++ "." ++ uuid

/-! ## Exceptions -/

inductive ErrorCode where
  | commonInvalidInput
  | commonNotFound
  | commonConflict
  | commonInternalError
  | settingAuthInvalidCredentials
  | settingAuthTokenExpired
  | settingPermissionDenied
  | settingUserNotFound
  | settingUserEmailExists
  deriving DecidableEq, Repr

/-- What a call may raise: an `AppError`, an exception of SQLAlchemy or of Python, or one of a library. -/
inductive Exc where
  | app (code : ErrorCode) (message : String)
  | integrityError
  | multipleResultsFound
  | typeError
  | other (what : String)
  deriving DecidableEq, Repr

/-! ## Requests -/

/-- `Field(min_length=1, max_length=100)`. -/
abbrev Name := {s : String // 1 ≤ s.length ∧ s.length ≤ 100}

/-- The roles that `^(admin|member|viewer)$` matches. -/
inductive SystemRole where
  | admin
  | member
  | viewer
  deriving DecidableEq, Repr

def SystemRole.name : SystemRole → String
  | .admin => "admin"
  | .member => "member"
  | .viewer => "viewer"

structure CreateUserRequest where
  email : String
  displayName : Name
  password : String
  role : SystemRole := .member

structure UpdateUserRequest where
  displayName : Option Name := none
  status : Option Status := none

structure ChangePasswordRequest where
  currentPassword : String
  newPassword : String

structure CreateTenantRequest where
  displayName : Name
  config : Option Value := none

structure UpdateTenantRequest where
  displayName : Option Name := none
  status : Option Status := none
  config : Option Value := none

structure AddMemberRequest where
  userRid : String
  role : SystemRole := .member

structure CreateRoleRequest where
  name : Name
  description : Option String := none
  permissions : List Permission

structure UpdateRoleRequest where
  name : Option Name := none
  description : Option String := none
  permissions : Option (List Permission) := none

/-! ## Responses -/

structure TenantBrief where
  rid : String
  displayName : String

structure UserResponse where
  rid : String
  email : String
  displayName : String
  status : Status
  role : Option String := none
  tenant : Option TenantBrief := none
  createdAt : Time
  updatedAt : Time

structure TenantResponse where
  rid : String
  displayName : String
  status : Status
  config : Value
  createdAt : Time
  updatedAt : Time

structure MemberResponse where
  userRid : String
  displayName : String
  email : String
  role : String
  isDefault : Bool
  createdAt : Time

structure RoleResponse where
  rid : String
  name : String
  description : Option String
  permissions : List Permission
  isSystem : Bool
  createdAt : Time
  updatedAt : Time

def User.response (u : User) (role : Option String) (tenant : Option TenantBrief) : UserResponse :=
  ⟨u.rid, u.email, u.displayName, u.status, role, tenant, u.createdAt, u.updatedAt⟩

def Tenant.brief (t : Tenant) : TenantBrief := ⟨t.rid, t.displayName⟩

def Tenant.response (t : Tenant) : TenantResponse :=
  ⟨t.rid, t.displayName, t.status, t.config, t.createdAt, t.updatedAt⟩

def Membership.response (m : Membership) (u : User) : MemberResponse :=
  ⟨u.rid, u.displayName, u.email, m.role, m.isDefault, m.createdAt⟩

/-- `_role_to_response`. -/
def roleToResponse (r : CustomRole) : RoleResponse :=
  ⟨r.rid, r.name, r.description, r.permissions, r.isSystem, r.createdAt, r.updatedAt⟩

/-! ## Tokens -/

/-- The claims of an access token; `iss` and `aud` are constants. -/
structure TokenPayload where
  sub : String
  tid : String
  role : String
  jti : String
  iat : Time
  exp : Time
  deriving DecidableEq, Repr

structure OidcUserInfo where
  sub : String
  email : String
  name : String

/-! ## Surroundings -/

/-- What a call reads: the request context, the clock and random values. -/
structure Ctx where
  userId : String
  tenantId : String
  role : String
  now : Time
  /-- The values that `uuid4` returns in the call, in order. -/
  uuids : ℕ → String
  /-- What `secrets.token_urlsafe` returns. -/
  rawToken : String
  /-- What `bcrypt.gensalt` returns. -/
  salt : String

/-- The settings, and the code outside the repository. -/
structure Config where
  rbacEnabled : Bool
  ssoEnabled : Bool
  accessTtl : Time
  refreshTtl : Time
  seedAdminEmail : String
  seedAdminPassword : String
  seedTenantName : String
  /-- `hashlib.sha256(raw.encode()).hexdigest()`. -/
  sha256 : String → String
  /-- `bcrypt.hashpw`. -/
  hashpw : String → String → String
  /-- `bcrypt.checkpw`, which raises when the hash has no salt. -/
  checkpw : String → String → Except Exc Bool
  /-- The characters that `\d` matches. -/
  isDecimal : Char → Bool
  /-- The driver returns timezone-aware datetimes for the columns declared so. -/
  awareDatetimes : Bool

/-! ## Passwords -/

/-- `PASSWORD_PATTERN.match`: a dot matches no newline, and `$` matches before a last newline. -/
def matchesPasswordPattern (isDecimal : Char → Bool) (password : String) : Prop :=
  let line := password.toList.takeWhile (· ≠ '\n')
  let rest := password.toList.dropWhile (· ≠ '\n')
  line.any Char.isAlpha ∧ line.any isDecimal ∧ 8 ≤ line.length ∧ (rest = [] ∨ rest = ['\n'])

instance (isDecimal : Char → Bool) (password : String) :
    Decidable (matchesPasswordPattern isDecimal password) := by
  unfold matchesPasswordPattern
  infer_instance

/-- `validate_password_strength`. -/
def validatePasswordStrength (isDecimal : Char → Bool) (password : String) : Option String :=
  if password.length < 8 then some "Password must be at least 8 characters"
  else if matchesPasswordPattern isDecimal password then none
  else some "Password must contain at least one letter and one number"

end Lingshu.Setting
