import Lingshu.Setting.Schema
import Mathlib.Data.List.Sort
import Mathlib.Data.List.Nodup

/-! # The tables

The tables of `models.py` with their primary keys, unique constraints and foreign keys as fields, and the queries
of the repositories. A statement that would break a constraint raises `IntegrityError`. Rows are in the order in
which a query without `ORDER BY` returns them. -/
namespace Lingshu.Setting
set_option autoImplicit false

structure Database where
  users : List User
  tenants : List Tenant
  memberships : List Membership
  refreshTokens : List RefreshToken
  customRoles : List CustomRole
  userKeys : (users.map User.rid).Nodup
  emails : (users.map User.email).Nodup
  tenantKeys : (tenants.map Tenant.rid).Nodup
  membershipKeys : (memberships.map Membership.key).Nodup
  membershipUsers : ∀ m ∈ memberships, m.userRid ∈ users.map User.rid
  membershipTenants : ∀ m ∈ memberships, m.tenantRid ∈ tenants.map Tenant.rid
  tokenKeys : (refreshTokens.map RefreshToken.tokenHash).Nodup
  tokenUsers : ∀ k ∈ refreshTokens, k.userRid ∈ users.map User.rid
  tokenTenants : ∀ k ∈ refreshTokens, k.tenantRid ∈ tenants.map Tenant.rid
  roleKeys : (customRoles.map CustomRole.rid).Nodup
  roleNames : (customRoles.map CustomRole.key).Nodup

namespace Database

def empty : Database where
  users := []
  tenants := []
  memberships := []
  refreshTokens := []
  customRoles := []
  userKeys := List.nodup_nil
  emails := List.nodup_nil
  tenantKeys := List.nodup_nil
  membershipKeys := List.nodup_nil
  membershipUsers := by simp
  membershipTenants := by simp
  tokenKeys := List.nodup_nil
  tokenUsers := by simp
  tokenTenants := by simp
  roleKeys := List.nodup_nil
  roleNames := List.nodup_nil

/-! ## UserRepository -/

def getUser (db : Database) (rid : String) : Option User := db.users.find? fun u => u.rid = rid

/-- `get_by_email`. -/
def getByEmail (db : Database) (email : String) : Option User := db.users.find? fun u => u.email = email

def insertUser (db : Database) (u : User) : Except Exc Database :=
  if h : ((db.users ++ [u]).map User.rid).Nodup ∧ ((db.users ++ [u]).map User.email).Nodup then
    .ok { db with
      users := db.users ++ [u]
      userKeys := h.1
      emails := h.2
      membershipUsers := fun m hm => by simp [db.membershipUsers m hm]
      tokenUsers := fun k hk => by simp [db.tokenUsers k hk] }
  else .error .integrityError

end Database

/-- The columns that `update_fields` sets. -/
structure UserFields where
  displayName : Option String := none
  status : Option Status := none
  passwordHash : Option String := none

/-- `update(User)...values(**fields, updated_at=datetime.utcnow())`, on one row. -/
def User.set (fields : UserFields) (now : Time) (u : User) : User :=
  { u with
    displayName := fields.displayName.getD u.displayName
    status := fields.status.getD u.status
    passwordHash := fields.passwordHash.getD u.passwordHash
    updatedAt := now }

/-- The row with the rid is replaced. -/
def setRow {α : Type} (key : α → String) (rid : String) (f : α → α) (rows : List α) : List α :=
  rows.map fun r => if key r = rid then f r else r

theorem map_setRow {α β : Type} (key : α → String) (rid : String) (f : α → α) (g : α → β)
    (h : ∀ r, g (f r) = g r) (rows : List α) : (setRow key rid f rows).map g = rows.map g := by
  rw [setRow, List.map_map]
  refine List.map_congr_left fun r _ => ?_
  by_cases hr : key r = rid
  · simp [hr, h]
  · simp [hr]

@[simp] theorem map_rid_setUser (rid : String) (fields : UserFields) (now : Time) (rows : List User) :
    (setRow User.rid rid (User.set fields now) rows).map User.rid = rows.map User.rid :=
  map_setRow User.rid rid (User.set fields now) User.rid (fun _ => rfl) rows

@[simp] theorem map_email_setUser (rid : String) (fields : UserFields) (now : Time) (rows : List User) :
    (setRow User.rid rid (User.set fields now) rows).map User.email = rows.map User.email :=
  map_setRow User.rid rid (User.set fields now) User.email (fun _ => rfl) rows

theorem mem_setRow {α : Type} {key : α → String} {rid : String} {f : α → α} {rows : List α} {r : α} :
    r ∈ setRow key rid f rows ↔ ∃ r₀ ∈ rows, (if key r₀ = rid then f r₀ else r₀) = r := by
  rw [setRow, List.mem_map]

namespace Database

def updateUser (db : Database) (rid : String) (fields : UserFields) (now : Time) : Database :=
  { db with
    users := setRow User.rid rid (User.set fields now) db.users
    userKeys := by rw [map_rid_setUser]; exact db.userKeys
    emails := by rw [map_email_setUser]; exact db.emails
    membershipUsers := by rw [map_rid_setUser]; exact db.membershipUsers
    tokenUsers := by rw [map_rid_setUser]; exact db.tokenUsers }

end Database

/-! ## TenantRepository -/

structure TenantFields where
  displayName : Option String := none
  status : Option Status := none
  config : Option Json.Value := none

def Tenant.set (fields : TenantFields) (now : Time) (t : Tenant) : Tenant :=
  { t with
    displayName := fields.displayName.getD t.displayName
    status := fields.status.getD t.status
    config := fields.config.getD t.config
    updatedAt := now }

@[simp] theorem map_rid_setTenant (rid : String) (fields : TenantFields) (now : Time) (rows : List Tenant) :
    (setRow Tenant.rid rid (Tenant.set fields now) rows).map Tenant.rid = rows.map Tenant.rid :=
  map_setRow Tenant.rid rid (Tenant.set fields now) Tenant.rid (fun _ => rfl) rows

/-- `ORDER BY created_at DESC`. -/
def newestFirst {α : Type} (createdAt : α → Time) (rows : List α) : List α :=
  rows.insertionSort fun a b => createdAt b ≤ createdAt a

namespace Database

def getTenant (db : Database) (rid : String) : Option Tenant := db.tenants.find? fun t => t.rid = rid

/-- `list_all(offset=0, limit=1)`. -/
def newestTenant (db : Database) : Option Tenant := (newestFirst Tenant.createdAt db.tenants).head?

def insertTenant (db : Database) (t : Tenant) : Except Exc Database :=
  if h : ((db.tenants ++ [t]).map Tenant.rid).Nodup then
    .ok { db with
      tenants := db.tenants ++ [t]
      tenantKeys := h
      membershipTenants := fun m hm => by simp [db.membershipTenants m hm]
      tokenTenants := fun k hk => by simp [db.tokenTenants k hk] }
  else .error .integrityError

def updateTenant (db : Database) (rid : String) (fields : TenantFields) (now : Time) : Database :=
  { db with
    tenants := setRow Tenant.rid rid (Tenant.set fields now) db.tenants
    tenantKeys := by rw [map_rid_setTenant]; exact db.tenantKeys
    membershipTenants := by rw [map_rid_setTenant]; exact db.membershipTenants
    tokenTenants := by rw [map_rid_setTenant]; exact db.tokenTenants }

/-! ## MembershipRepository -/

def getMembership (db : Database) (userRid tenantRid : String) : Option Membership :=
  db.memberships.find? fun m => m.key = (userRid, tenantRid)

/-- `get_default_tenant`; `scalar_one_or_none` raises on a second row. -/
def getDefaultTenant (db : Database) (userRid : String) : Except Exc (Option Membership) :=
  match db.memberships.filter fun m => decide (m.userRid = userRid) && m.isDefault with
  | [] => .ok none
  | [m] => .ok (some m)
  | _ => .error .multipleResultsFound

def listByUser (db : Database) (userRid : String) : List Membership :=
  db.memberships.filter fun m => m.userRid = userRid

/-- `list_by_tenant` with the default page. -/
def listByTenant (db : Database) (tenantRid : String) : List Membership :=
  (newestFirst Membership.createdAt (db.memberships.filter fun m => m.tenantRid = tenantRid)).take 20

def insertMembership (db : Database) (m : Membership) : Except Exc Database :=
  if h : ((db.memberships ++ [m]).map Membership.key).Nodup ∧ m.userRid ∈ db.users.map User.rid ∧
      m.tenantRid ∈ db.tenants.map Tenant.rid then
    .ok { db with
      memberships := db.memberships ++ [m]
      membershipKeys := h.1
      membershipUsers := fun m' hm => by
        rcases List.mem_append.mp hm with hm | hm
        · exact db.membershipUsers m' hm
        · rw [List.mem_singleton.mp hm]
          exact h.2.1
      membershipTenants := fun m' hm => by
        rcases List.mem_append.mp hm with hm | hm
        · exact db.membershipTenants m' hm
        · rw [List.mem_singleton.mp hm]
          exact h.2.2 }
  else .error .integrityError

end Database

/-- A membership with the role replaced, when it has the key. -/
def Membership.setRole (key : String × String) (role : String) (m : Membership) : Membership :=
  if m.key = key then { m with role := role } else m

theorem Membership.setRole_key (key : String × String) (role : String) (m : Membership) :
    (m.setRole key role).key = m.key := by
  unfold setRole
  split <;> rfl

theorem Membership.setRole_userRid (key : String × String) (role : String) (m : Membership) :
    (m.setRole key role).userRid = m.userRid := congrArg Prod.fst (m.setRole_key key role)

theorem Membership.setRole_tenantRid (key : String × String) (role : String) (m : Membership) :
    (m.setRole key role).tenantRid = m.tenantRid := congrArg Prod.snd (m.setRole_key key role)

namespace Database

/-- `update_role`. -/
def updateMembershipRole (db : Database) (userRid tenantRid role : String) : Database :=
  { db with
    memberships := db.memberships.map (Membership.setRole (userRid, tenantRid) role)
    membershipKeys := by
      rw [List.map_map, List.map_congr_left fun m _ => m.setRole_key (userRid, tenantRid) role]
      exact db.membershipKeys
    membershipUsers := fun m hm => by
      obtain ⟨m₀, hm₀, rfl⟩ := List.mem_map.mp hm
      rw [Membership.setRole_userRid]
      exact db.membershipUsers m₀ hm₀
    membershipTenants := fun m hm => by
      obtain ⟨m₀, hm₀, rfl⟩ := List.mem_map.mp hm
      rw [Membership.setRole_tenantRid]
      exact db.membershipTenants m₀ hm₀ }

def deleteMembership (db : Database) (userRid tenantRid : String) : Database :=
  { db with
    memberships := db.memberships.filter fun m => m.key ≠ (userRid, tenantRid)
    membershipKeys := db.membershipKeys.sublist (List.filter_sublist.map _)
    membershipUsers := fun m hm => db.membershipUsers m (List.mem_filter.mp hm).1
    membershipTenants := fun m hm => db.membershipTenants m (List.mem_filter.mp hm).1 }

/-! ## RefreshTokenRepository -/

/-- `get_by_hash`. -/
def getByHash (db : Database) (tokenHash : String) : Option RefreshToken :=
  db.refreshTokens.find? fun k => k.tokenHash = tokenHash

def insertRefreshToken (db : Database) (k : RefreshToken) : Except Exc Database :=
  if h : ((db.refreshTokens ++ [k]).map RefreshToken.tokenHash).Nodup ∧ k.userRid ∈ db.users.map User.rid ∧
      k.tenantRid ∈ db.tenants.map Tenant.rid then
    .ok { db with
      refreshTokens := db.refreshTokens ++ [k]
      tokenKeys := h.1
      tokenUsers := fun k' hk => by
        rcases List.mem_append.mp hk with hk | hk
        · exact db.tokenUsers k' hk
        · rw [List.mem_singleton.mp hk]
          exact h.2.1
      tokenTenants := fun k' hk => by
        rcases List.mem_append.mp hk with hk | hk
        · exact db.tokenTenants k' hk
        · rw [List.mem_singleton.mp hk]
          exact h.2.2 }
  else .error .integrityError

/-- `revoke`. -/
def revokeRefreshToken (db : Database) (tokenHash : String) (now : Time) : Database :=
  { db with
    refreshTokens := setRow RefreshToken.tokenHash tokenHash (fun k => { k with revokedAt := some now }) db.refreshTokens
    tokenKeys := by
      have hkeys := map_setRow RefreshToken.tokenHash tokenHash (fun k => { k with revokedAt := some now })
        RefreshToken.tokenHash (fun _ => rfl) db.refreshTokens
      rw [hkeys]
      exact db.tokenKeys
    tokenUsers := fun k hk => by
      obtain ⟨k₀, hk₀, rfl⟩ := mem_setRow.mp hk
      have h := db.tokenUsers k₀ hk₀
      split <;> exact h
    tokenTenants := fun k hk => by
      obtain ⟨k₀, hk₀, rfl⟩ := mem_setRow.mp hk
      have h := db.tokenTenants k₀ hk₀
      split <;> exact h }

end Database

/-- `is_valid`: comparing an aware with a naive datetime raises. -/
def RefreshToken.isValid (k : RefreshToken) (awareDatetimes : Bool) (now : Time) : Except Exc Bool :=
  if k.revokedAt.isSome then .ok false
  else if awareDatetimes then .error .typeError
  else .ok (decide (now < k.expiresAt))

/-! ## CustomRoleRepository -/

structure RoleFields where
  name : Option String := none
  description : Option String := none
  permissions : Option (List Permission) := none

/-- `update(CustomRole)...values(**fields)`, with `onupdate` of `updated_at`. -/
def CustomRole.set (fields : RoleFields) (now : Time) (r : CustomRole) : CustomRole :=
  { r with
    name := fields.name.getD r.name
    description := fields.description.or r.description
    permissions := fields.permissions.getD r.permissions
    updatedAt := now }

@[simp] theorem map_rid_setRole (rid : String) (fields : RoleFields) (now : Time) (rows : List CustomRole) :
    (setRow CustomRole.rid rid (CustomRole.set fields now) rows).map CustomRole.rid = rows.map CustomRole.rid :=
  map_setRow CustomRole.rid rid (CustomRole.set fields now) CustomRole.rid (fun _ => rfl) rows

namespace Database

def getRole (db : Database) (rid : String) : Option CustomRole := db.customRoles.find? fun r => r.rid = rid

/-- `get_by_name`. -/
def getByName (db : Database) (tenantId name : String) : Option CustomRole :=
  db.customRoles.find? fun r => r.key = (tenantId, name)

def insertRole (db : Database) (r : CustomRole) : Except Exc Database :=
  if h : ((db.customRoles ++ [r]).map CustomRole.rid).Nodup ∧
      ((db.customRoles ++ [r]).map CustomRole.key).Nodup then
    .ok { db with
      customRoles := db.customRoles ++ [r]
      roleKeys := h.1
      roleNames := h.2 }
  else .error .integrityError

def updateRole (db : Database) (rid : String) (fields : RoleFields) (now : Time) : Except Exc Database :=
  if h : ((setRow CustomRole.rid rid (CustomRole.set fields now) db.customRoles).map CustomRole.key).Nodup then
    .ok { db with
      customRoles := setRow CustomRole.rid rid (CustomRole.set fields now) db.customRoles
      roleKeys := by rw [map_rid_setRole]; exact db.roleKeys
      roleNames := h }
  else .error .integrityError

def deleteRole (db : Database) (rid : String) : Database :=
  { db with
    customRoles := db.customRoles.filter fun r => r.rid ≠ rid
    roleKeys := db.roleKeys.sublist (List.filter_sublist.map _)
    roleNames := db.roleNames.sublist (List.filter_sublist.map _) }

end Database
end Lingshu.Setting
