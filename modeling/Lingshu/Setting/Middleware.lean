import Lingshu.Setting.Runs

/-! # Requests

`AuthMiddleware._dispatch_inner` for a path that is not whitelisted, and the routes behind it, which pass the request
to the method of the service without asking `check_permission`. -/
namespace Lingshu.Setting
set_option autoImplicit false

/-- The cookies and headers that the middleware reads. -/
structure Headers where
  accessToken : Option String := none
  userId : Option String := none
  tenantId : Option String := none
  role : Option String := none

/-- The context variables that the middleware sets. -/
structure Identity where
  userId : String
  tenantId : String
  role : String
  deriving DecidableEq

/-- `_error_response`. -/
structure HttpError where
  status : ℕ
  code : String
  message : String
  deriving DecidableEq

/-- `if x` of an optional string. -/
def given (x : Option String) : Option String := x.filter fun s => s ≠ ""

def authenticationRequired : HttpError := ⟨401, "COMMON_UNAUTHORIZED", "Authentication required"⟩

/-- The end of `_dispatch_inner`: accept headers in development. -/
def devFallback (devMode : Bool) (h : Headers) : Except HttpError Identity :=
  if devMode then
    match given h.userId, given h.tenantId with
    | some userId, some tenantId => .ok ⟨userId, tenantId, h.role.getD "admin"⟩
    | _, _ => .error authenticationRequired
  else .error authenticationRequired

/-- `_dispatch_inner` up to `call_next`; `validateToken` raises `ValueError` with a message. -/
def authenticate (devMode : Bool) (validateToken : String → Except String TokenPayload) (blacklist : List String)
    (h : Headers) : Except HttpError Identity :=
  match given h.accessToken with
  | some token =>
    match validateToken token with
    | .error message => .error ⟨401, "SETTING_AUTH_TOKEN_EXPIRED", message⟩
    | .ok payload =>
      if payload.jti ∈ blacklist then .error ⟨401, "SETTING_AUTH_TOKEN_REVOKED", "Token has been revoked"⟩
      else .ok ⟨payload.sub, payload.tid, payload.role⟩
  | none => devFallback devMode h

/-- The context of a call made by the user. -/
def Ctx.actingAs (ctx : Ctx) (who : Identity) : Ctx :=
  { ctx with userId := who.userId, tenantId := who.tenantId, role := who.role }

/-- A request to a route of `router.py`. -/
def Server.request (cfg : Config) (devMode : Bool) (validateToken : String → Except String TokenPayload) (s : Server)
    (h : Headers) (ctx : Ctx) (op : Op) : Server :=
  match authenticate devMode validateToken s.blacklist h with
  | .error _ => s
  | .ok who => s.next cfg (.call (ctx.actingAs who) op)

/-- The state-changing routes of users, tenants, members and roles. -/
def Op.Administers : Op → Prop
  | .createUser _ | .updateUser _ _ | .deleteUser _ | .resetPassword _ _ | .createTenant _ | .updateTenant _ _
  | .deleteTenant _ | .addMember _ _ | .updateMemberRole _ _ _ | .removeMember _ _ | .createRole _ | .updateRole _ _
  | .deleteRole _ | .assignRoleToUser _ _ => True
  | _ => False

end Lingshu.Setting
