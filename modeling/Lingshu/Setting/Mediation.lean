import Lingshu.Setting.Effects
import Lingshu.Setting.Middleware

/-! # Mediation

A route changes the tables and the rules whether or not the caller may: the claim that only permitted callers change
them holds of a request exactly when the caller is permitted or the request is idle, refused by the method's own
checks or writing what is there. -/
namespace Lingshu.Setting
open Interaction Proc PermissionEnforcer
set_option autoImplicit false

/-- Users, tenants, memberships, roles and rules are the same. -/
structure Unchanged (s s' : Server) : Prop where
  users : s'.db.users = s.db.users
  tenants : s'.db.tenants = s.db.tenants
  memberships : s'.db.memberships = s.db.memberships
  customRoles : s'.db.customRoles = s.db.customRoles
  policies : ∀ p, p ∈ s'.enforcer.policies ↔ p ∈ s.enforcer.policies
  groupings : ∀ g, g ∈ s'.enforcer.groupings ↔ g ∈ s.enforcer.groupings

namespace Database
variable (db : Database)

/-- Setting the fields of the user changes nothing. -/
def UserStays (rid : String) (fields : UserFields) (now : Time) : Prop :=
  ∀ u ∈ db.users, u.rid = rid → u.set fields now = u

def TenantStays (rid : String) (fields : TenantFields) (now : Time) : Prop :=
  ∀ t ∈ db.tenants, t.rid = rid → t.set fields now = t

/-- Another role of the caller's tenant has the new name, or of the role's own tenant. -/
def NameClashes (ctx : Ctx) (rid : String) (req : UpdateRoleRequest) (fields : RoleFields) : Prop :=
  (∃ r ∈ req.name.bind fun name => db.getByName ctx.tenantId name, r.rid ≠ rid) ∨
    ¬ ((setRow CustomRole.rid rid (CustomRole.set fields ctx.now) db.customRoles).map CustomRole.key).Nodup

end Database

/-- The role is the user's in the table and in memory. -/
def Server.RoleStays (s : Server) (userRid tenantRid role : String) : Prop :=
  ∀ m ∈ s.db.memberships, m.key = (userRid, tenantRid) → m.role = role ∧ (userRid, role) ∈ s.enforcer.groupings

/-- The rules in memory under the role's name are its permissions. -/
def Server.RulesStand (s : Server) (role : CustomRole) : Prop :=
  ∀ p, p.sub = role.name → (p ∈ s.enforcer.policies ↔ ∃ perm ∈ role.permissions, policyOf role.name perm = p)

def UpdateUserRequest.fields (req : UpdateUserRequest) : UserFields :=
  { displayName := req.displayName.map Subtype.val, status := req.status }

def UpdateTenantRequest.fields (req : UpdateTenantRequest) : TenantFields :=
  { displayName := req.displayName.map Subtype.val, status := req.status, config := req.config }

def UpdateRoleRequest.fields (req : UpdateRoleRequest) : RoleFields :=
  { name := req.name.map Subtype.val, description := req.description, permissions := req.permissions }

/-- The request is refused by the checks of its method, or writes what is there. -/
def Idle (cfg : Config) (ctx : Ctx) (s : Server) : Op → Prop
  | .createUser req => s.db.getByEmail req.email ≠ none ∨ validatePasswordStrength cfg.isDecimal req.password ≠ none ∨
      generateRid "user" (ctx.uuids 0) ∈ s.db.users.map User.rid ∨ ctx.tenantId ∉ s.db.tenants.map Tenant.rid
  | .updateUser rid req => (req.displayName = none ∧ req.status = none) ∨ s.db.UserStays rid req.fields ctx.now
  | .deleteUser rid => s.db.UserStays rid { status := some .disabled } ctx.now
  | .resetPassword rid password => validatePasswordStrength cfg.isDecimal password ≠ none ∨
      s.db.UserStays rid { passwordHash := some (cfg.hashpw ctx.salt password) } ctx.now
  | .createTenant _ => generateRid "tenant" (ctx.uuids 0) ∈ s.db.tenants.map Tenant.rid ∨
      ctx.userId ∉ s.db.users.map User.rid
  | .updateTenant rid req => (req.displayName = none ∧ req.status = none ∧ req.config = none) ∨
      s.db.TenantStays rid req.fields ctx.now
  | .deleteTenant rid => s.db.TenantStays rid { status := some .disabled } ctx.now
  | .addMember tenantRid req => tenantRid ∉ s.db.tenants.map Tenant.rid ∨ req.userRid ∉ s.db.users.map User.rid ∨
      (req.userRid, tenantRid) ∈ s.db.memberships.map Membership.key
  | .updateMemberRole tenantRid userRid role => s.RoleStays userRid tenantRid role.name
  | .removeMember tenantRid userRid => ∀ m ∈ s.db.memberships, m.key = (userRid, tenantRid) →
      m.role = "admin" ∧ ((s.db.listByTenant tenantRid).countP fun m => m.role = "admin") ≤ 1
  | .createRole req => (ctx.tenantId, (req.name : String)) ∈ s.db.customRoles.map CustomRole.key ∨
      generateRid "role" (ctx.uuids 0) ∈ s.db.customRoles.map CustomRole.rid
  | .updateRole rid req => ∀ role ∈ s.db.customRoles, role.rid = rid → role.isSystem = true ∨
      s.db.NameClashes ctx rid req req.fields ∨ (req.name = none ∧ req.description = none ∧ req.permissions = none) ∨
      (role.set req.fields ctx.now = role ∧ s.RulesStand role)
  | .deleteRole rid => ∀ role ∈ s.db.customRoles, role.rid = rid → role.isSystem = true
  | .assignRoleToUser userRid role => s.RoleStays userRid ctx.tenantId role
  | _ => False

/-- A method changes something exactly if the request is not idle, and raises only then. -/
def Settles (cfg : Config) (ctx : Ctx) (s : Server) (op : Op) {α : Type} (p : Session α) : Prop :=
  p.Ensures s (fun _ s' => Unchanged s s' ↔ Idle cfg ctx s op)
    fun _ s' => s'.enforcer = s.enforcer ∧ Idle cfg ctx s op

section Methods
variable {cfg : Config} {ctx : Ctx} {s : Server}

theorem Unchanged.refl (s : Server) : Unchanged s s :=
  ⟨rfl, rfl, rfl, rfl, fun _ => Iff.rfl, fun _ => Iff.rfl⟩

theorem setRow_eq_self {α : Type} {key : α → String} {rid : String} {f : α → α} {rows : List α} :
    setRow key rid f rows = rows ↔ ∀ r ∈ rows, key r = rid → f r = r := by
  have hid : rows.map id = rows := List.map_id rows
  conv_lhs => rhs; rw [← hid]
  rw [setRow, List.map_inj_left]
  refine forall₂_congr fun r _ => ?_
  by_cases h : key r = rid <;> simp [h]

@[simp] theorem ensures_requireStrength_iff {password : String} {Q : Unit → Server → Prop} {R : Exc → Server → Prop} :
    (requireStrength cfg password).Ensures s Q R ↔
      (validatePasswordStrength cfg.isDecimal password = none → Q () s) ∧
      ∀ message, validatePasswordStrength cfg.isDecimal password = some message →
        R (.app .commonInvalidInput message) s := by
  unfold requireStrength
  cases validatePasswordStrength cfg.isDecimal password <;> simp

/-! ## Users -/

theorem settles_userFields {op : Op} {rid : String} {fields : UserFields}
    (hidle : Idle cfg ctx s op ↔ s.db.UserStays rid fields ctx.now) :
    Settles cfg ctx s op (updateUserFields ctx rid fields) := by
  simp only [Settles, updateUserFields, ensures_bind, ensures_execute, ensures_query, ensures_orRaise, hidle, true_and]
  constructor
  · intro u _
    constructor
    · exact fun h => setRow_eq_self.mp h.users
    · intro h
      exact ⟨setRow_eq_self.mpr h, rfl, rfl, rfl, fun _ => Iff.rfl, fun _ => Iff.rfl⟩
  · intro hnone u hu hrid
    have hmem : u.set fields ctx.now ∈ setRow User.rid rid (User.set fields ctx.now) s.db.users :=
      mem_setRow.mpr ⟨u, hu, if_pos hrid⟩
    have hfound := List.find?_eq_none.mp hnone _ hmem
    have hset : (u.set fields ctx.now).rid = rid := hrid
    simp [hset] at hfound

theorem settles_createUser (req : CreateUserRequest) :
    Settles cfg ctx s (.createUser req) (createUser cfg ctx req) := by
  simp only [Settles, createUser, ensures_bind, ensures_query, ensures_require, ensures_requireStrength_iff,
    ensures_flush, ensures_enforce, ensures_pure, true_and]
  refine ⟨fun hemail => ⟨fun hstrength => ⟨fun db hdb => ?_, fun e he => ?_⟩, fun message hweak => ?_⟩, fun hemail => ?_⟩
  · obtain ⟨hnew, husers, htenants, hmemberships, -⟩ := Database.insertUser_ok hdb
    refine ⟨fun db' hdb' => ?_, fun e he => ?_⟩
    · obtain ⟨_, _, ht, husers', -⟩ := Database.insertMembership_ok hdb'
      constructor
      · intro h
        have hsame := h.users
        rw [show db'.users = _ from husers', husers] at hsame
        exact absurd hsame (by simp)
      · rintro (h | h | h | h)
        · exact absurd hemail h
        · exact absurd hstrength h
        · exact absurd h hnew
        · rw [htenants] at ht
          exact absurd ht h
    · refine .inr (.inr (.inr fun ht => ?_))
      rcases Database.insertMembership_error he with h | h | h
      · rw [hmemberships] at h
        obtain ⟨m, hm, hkey⟩ := List.mem_map.mp h
        have hmu : m.userRid = generateRid "user" (ctx.uuids 0) := congrArg Prod.fst hkey
        exact hnew (hmu ▸ s.db.membershipUsers m hm)
      · rw [husers] at h
        simp at h
      · rw [htenants] at h
        exact h ht
  · rcases Database.insertUser_error he with h | h
    · exact .inr (.inr (.inl h))
    · obtain ⟨u, hu, hsame⟩ := List.mem_map.mp h
      have hfound := List.find?_eq_none.mp hemail u hu
      simp [show u.email = req.email from hsame] at hfound
  · exact .inr (.inl (by rw [hweak]; simp))
  · exact .inl hemail

theorem settles_updateUser (rid : String) (req : UpdateUserRequest) :
    Settles cfg ctx s (.updateUser rid req) (updateUser ctx rid req) := by
  simp only [Settles, updateUser, ensures_bind, ensures_require, ensures_pure, true_and]
  have hgiven : (req.displayName.isSome ∨ req.status.isSome) ↔ ¬ (req.displayName = none ∧ req.status = none) := by
    cases req.displayName <;> cases req.status <;> simp
  refine ⟨fun hfields => settles_userFields ?_, fun hnone => ?_⟩
  · exact or_iff_right (hgiven.mp hfields)
  · exact .inl (not_not.mp (mt hgiven.mpr hnone))

theorem settles_deleteUser (rid : String) : Settles cfg ctx s (.deleteUser rid) (deleteUser ctx rid) := by
  simp only [Settles, deleteUser, ensures_bind, ensures_pure]
  exact settles_userFields Iff.rfl

theorem settles_resetPassword (rid password : String) :
    Settles cfg ctx s (.resetPassword rid password) (resetPassword cfg ctx rid password) := by
  simp only [Settles, resetPassword, ensures_bind, ensures_requireStrength_iff, ensures_pure, true_and]
  refine ⟨fun hstrength => settles_userFields ?_, fun message hweak => ?_⟩
  · exact or_iff_right fun h => h hstrength
  · exact .inl (by rw [hweak]; simp)

/-! ## Tenants -/

theorem settles_tenantFields {op : Op} {rid : String} {fields : TenantFields}
    (hidle : Idle cfg ctx s op ↔ s.db.TenantStays rid fields ctx.now) :
    Settles cfg ctx s op (updateTenantFields ctx rid fields) := by
  simp only [Settles, updateTenantFields, ensures_bind, ensures_execute, ensures_query, ensures_orRaise, hidle, true_and]
  constructor
  · intro t _
    constructor
    · exact fun h => setRow_eq_self.mp h.tenants
    · intro h
      exact ⟨rfl, setRow_eq_self.mpr h, rfl, rfl, fun _ => Iff.rfl, fun _ => Iff.rfl⟩
  · intro hnone t ht hrid
    have hmem : t.set fields ctx.now ∈ setRow Tenant.rid rid (Tenant.set fields ctx.now) s.db.tenants :=
      mem_setRow.mpr ⟨t, ht, if_pos hrid⟩
    have hfound := List.find?_eq_none.mp hnone _ hmem
    have hset : (t.set fields ctx.now).rid = rid := hrid
    simp [hset] at hfound

theorem settles_createTenant (req : CreateTenantRequest) :
    Settles cfg ctx s (.createTenant req) (createTenant ctx req) := by
  simp only [Settles, createTenant, ensures_bind, ensures_flush, ensures_pure, true_and]
  refine ⟨fun db hdb => ?_, fun e he => .inl (Database.insertTenant_error he)⟩
  obtain ⟨hnew, husers, htenants, hmemberships, -⟩ := Database.insertTenant_ok hdb
  refine ⟨fun db' hdb' => ?_, fun e he => ?_⟩
  · obtain ⟨_, hu, _, _, htenants', -⟩ := Database.insertMembership_ok hdb'
    constructor
    · intro h
      have hsame := h.tenants
      rw [show db'.tenants = _ from htenants', htenants] at hsame
      exact absurd hsame (by simp)
    · rintro (h | h)
      · exact absurd h hnew
      · rw [husers] at hu
        exact absurd hu h
  · refine .inr fun hu => ?_
    rcases Database.insertMembership_error he with h | h | h
    · rw [hmemberships] at h
      obtain ⟨m, hm, hkey⟩ := List.mem_map.mp h
      have hmt : m.tenantRid = generateRid "tenant" (ctx.uuids 0) := congrArg Prod.snd hkey
      exact hnew (hmt ▸ s.db.membershipTenants m hm)
    · rw [husers] at h
      exact h hu
    · rw [htenants] at h
      simp at h

theorem settles_updateTenant (rid : String) (req : UpdateTenantRequest) :
    Settles cfg ctx s (.updateTenant rid req) (updateTenant ctx rid req) := by
  simp only [Settles, updateTenant, ensures_bind, ensures_require, ensures_pure, true_and]
  have hgiven : (req.displayName.isSome ∨ req.status.isSome ∨ req.config.isSome) ↔
      ¬ (req.displayName = none ∧ req.status = none ∧ req.config = none) := by
    cases req.displayName <;> cases req.status <;> cases req.config <;> simp
  refine ⟨fun hfields => settles_tenantFields ?_, fun hnone => ?_⟩
  · exact or_iff_right (hgiven.mp hfields)
  · exact .inl (not_not.mp (mt hgiven.mpr hnone))

theorem settles_deleteTenant (rid : String) : Settles cfg ctx s (.deleteTenant rid) (deleteTenant ctx rid) := by
  simp only [Settles, deleteTenant, ensures_bind, ensures_pure]
  exact settles_tenantFields Iff.rfl

/-! ## Members -/

theorem getMembership_none {db : Database} {userRid tenantRid : String} (h : db.getMembership userRid tenantRid = none) :
    (userRid, tenantRid) ∉ db.memberships.map Membership.key := by
  intro hmem
  obtain ⟨m, hm, hkey⟩ := List.mem_map.mp hmem
  have hfound := List.find?_eq_none.mp h m hm
  simp [hkey] at hfound

theorem settles_addMember (tenantRid : String) (req : AddMemberRequest) :
    Settles cfg ctx s (.addMember tenantRid req) (addMember ctx tenantRid req) := by
  simp only [Settles, addMember, ensures_bind, ensures_query, ensures_orRaise, ensures_require, ensures_flush,
    ensures_enforce, ensures_pure, true_and]
  refine ⟨fun tenant htenant => ⟨fun user huser => ⟨fun hnone => ⟨fun db hdb => ?_, fun e he => ?_⟩, fun hsome => ?_⟩,
    fun hnone => ?_⟩, fun hnone => ?_⟩
  · obtain ⟨hnew, hu, ht, -, -, hmemberships, -⟩ := Database.insertMembership_ok hdb
    constructor
    · intro h
      have hsame := h.memberships
      rw [show db.memberships = _ from hmemberships] at hsame
      exact absurd hsame (by simp)
    · rintro (h | h | h)
      · exact absurd ht h
      · exact absurd hu h
      · exact absurd h hnew
  · obtain ⟨ht, rfl⟩ := Database.getTenant_mem htenant
    obtain ⟨hu, hrid⟩ := Database.getUser_mem huser
    rcases Database.insertMembership_error he with h | h | h
    · exact .inr (.inr h)
    · exact .inr (.inl h)
    · exact .inl h
  · obtain ⟨m, hm⟩ := Option.ne_none_iff_exists'.mp hsome
    obtain ⟨hmem, hkey⟩ := Database.getMembership_mem hm
    exact .inr (.inr (List.mem_map.mpr ⟨m, hmem, hkey⟩))
  · refine .inr (.inl fun hu => ?_)
    obtain ⟨u, hu, hrid⟩ := List.mem_map.mp hu
    have hfound := List.find?_eq_none.mp hnone u hu
    simp [hrid] at hfound
  · refine .inl fun ht => ?_
    obtain ⟨t, ht, hrid⟩ := List.mem_map.mp ht
    have hfound := List.find?_eq_none.mp hnone t ht
    simp [hrid] at hfound

/-- Changing a role changes nothing if it was the role, in the table and in memory. -/
theorem unchanged_setRole {m : Membership} {role : String} (hm : m ∈ s.db.memberships) {s' : Server}
    (hs' : s' = { s with
      db := s.db.updateMembershipRole m.userRid m.tenantRid role
      enforcer := (s.enforcer.removeUserRole m.userRid m.role).syncUserRole m.userRid role }) :
    Unchanged s s' ↔ s.RoleStays m.userRid m.tenantRid role := by
  have honly : s.RoleStays m.userRid m.tenantRid role ↔ m.role = role ∧ (m.userRid, role) ∈ s.enforcer.groupings := by
    refine ⟨fun h => h m hm rfl, fun h m' hm' hkey => ?_⟩
    rwa [List.inj_on_of_nodup_map s.db.membershipKeys hm' hm hkey]
  have hrows : s.db.memberships.map (Membership.setRole (m.userRid, m.tenantRid) role) = s.db.memberships ↔
      m.role = role := by
    have hid : s.db.memberships.map id = s.db.memberships := List.map_id _
    conv_lhs => rhs; rw [← hid]
    rw [List.map_inj_left]
    constructor
    · intro h
      have hself := h m hm
      rw [Membership.setRole, if_pos (by rfl)] at hself
      exact (congrArg Membership.role hself).symm
    · rintro hrole m' hm'
      by_cases hkey : m'.key = (m.userRid, m.tenantRid)
      · obtain rfl := List.inj_on_of_nodup_map s.db.membershipKeys hm' hm hkey
        rw [Membership.setRole, if_pos hkey, ← hrole]
        rfl
      · exact if_neg hkey
  rw [honly, hs']
  constructor
  · intro h
    exact ⟨hrows.mp h.memberships, (h.groupings _).mp (mem_syncUserRole.mpr (.inr rfl))⟩
  · rintro ⟨hrole, hg⟩
    refine ⟨rfl, rfl, hrows.mpr hrole, rfl, fun p => by simp, fun g => ?_⟩
    rw [mem_syncUserRole, mem_removeUserRole, hrole]
    constructor
    · rintro (⟨h, -⟩ | rfl)
      · exact h
      · exact hg
    · intro h
      by_cases hsame : g = (m.userRid, role)
      · exact .inr hsame
      · exact .inl ⟨h, hsame⟩

theorem roleStays_of_none {userRid tenantRid role : String} (h : s.db.getMembership userRid tenantRid = none) :
    s.RoleStays userRid tenantRid role := fun _ hm hkey =>
  absurd (List.mem_map.mpr ⟨_, hm, hkey⟩) (getMembership_none h)

theorem settles_updateMemberRole (tenantRid userRid : String) (role : SystemRole) :
    Settles cfg ctx s (.updateMemberRole tenantRid userRid role) (updateMemberRole tenantRid userRid role) := by
  simp only [Settles, updateMemberRole, replaceUserRole, ensures_bind, ensures_query, ensures_orRaise, ensures_execute,
    ensures_enforce, ensures_pure, true_and]
  refine ⟨fun m hm => ?_, roleStays_of_none⟩
  obtain ⟨hmem, hkey⟩ := Database.getMembership_mem hm
  obtain ⟨rfl, rfl⟩ := Prod.mk.inj hkey
  refine ⟨fun updated _ => ⟨fun user _ => unchanged_setRole hmem rfl, fun hnone => ?_⟩, fun hnone => ?_⟩
  · -- the user of a membership exists
    exfalso
    obtain ⟨u, hu, hrid⟩ := List.mem_map.mp (s.db.membershipUsers m hmem)
    have hfound := List.find?_eq_none.mp hnone u hu
    simp [hrid] at hfound
  · have hset : m.setRole (m.userRid, m.tenantRid) role.name ∈
        s.db.memberships.map (Membership.setRole (m.userRid, m.tenantRid) role.name) := List.mem_map_of_mem hmem
    have hfound := List.find?_eq_none.mp hnone _ hset
    rw [Membership.setRole_key] at hfound
    simp [Membership.key] at hfound

theorem settles_assignRoleToUser (userRid role : String) :
    Settles cfg ctx s (.assignRoleToUser userRid role) (assignRoleToUser ctx userRid role) := by
  simp only [Settles, assignRoleToUser, replaceUserRole, ensures_bind, ensures_query, ensures_orRaise, ensures_execute,
    ensures_enforce, true_and]
  refine ⟨fun m hm => ?_, roleStays_of_none⟩
  obtain ⟨hmem, hkey⟩ := Database.getMembership_mem hm
  obtain ⟨rfl, ht⟩ := Prod.mk.inj hkey
  simp only [Idle, ← ht]
  exact unchanged_setRole hmem rfl

theorem settles_removeMember (tenantRid userRid : String) :
    Settles cfg ctx s (.removeMember tenantRid userRid) (removeMember tenantRid userRid) := by
  simp only [Settles, removeMember, ensures_bind, ensures_query, ensures_orRaise, ensures_require, ensures_execute,
    ensures_enforce, true_and]
  refine ⟨fun m hm => ?_, fun hnone m hm hkey => ?_⟩
  · obtain ⟨hmem, hkey⟩ := Database.getMembership_mem hm
    have honly : ∀ m' ∈ s.db.memberships, m'.key = (userRid, tenantRid) → m' = m := fun m' hm' hkey' =>
      List.inj_on_of_nodup_map s.db.membershipKeys hm' hmem (hkey'.trans hkey.symm)
    refine ⟨fun hadmin => ⟨fun h => ?_, fun h => ?_⟩, fun hrefused m' hm' hkey' => ?_⟩
    · have hgone : m ∉ s.db.memberships.filter fun m' => m'.key ≠ (userRid, tenantRid) := by simp [hkey]
      have hsame : s.db.memberships.filter (fun m' => m'.key ≠ (userRid, tenantRid)) = s.db.memberships := h.memberships
      rw [hsame] at hgone
      exact absurd hmem hgone
    · obtain ⟨hrole, hcount⟩ := h m hmem hkey
      exact absurd (hadmin hrole) (by omega)
    · rw [honly m' hm' hkey']
      simp only [Classical.not_imp, not_lt] at hrefused
      exact hrefused
  · exact absurd (List.mem_map.mpr ⟨m, hm, hkey⟩) (getMembership_none hnone)

/-! ## Roles -/

theorem settles_createRole (req : CreateRoleRequest) :
    Settles cfg ctx s (.createRole req) (createRole ctx req) := by
  simp only [Settles, createRole, ensures_bind, ensures_query, ensures_require, ensures_flush, ensures_enforce,
    ensures_pure, true_and]
  refine ⟨fun _ => ⟨fun db hdb => ?_, fun e he => (Database.insertRole_error he).symm⟩, fun hsome => ?_⟩
  · obtain ⟨hrid, hkey, -, -, -, -, hroles⟩ := Database.insertRole_ok hdb
    constructor
    · intro h
      have hsame := h.customRoles
      rw [show db.customRoles = _ from hroles] at hsame
      exact absurd hsame (by simp)
    · rintro (h | h)
      · exact absurd h hkey
      · exact absurd h hrid
  · obtain ⟨r, hr⟩ := Option.ne_none_iff_exists'.mp hsome
    have hkey : r.key = (ctx.tenantId, (req.name : String)) := by simpa using List.find?_some hr
    exact .inl (List.mem_map.mpr ⟨r, List.mem_of_find?_eq_some hr, hkey⟩)

theorem getRole_none {db : Database} {rid : String} (h : db.getRole rid = none) :
    ∀ role ∈ db.customRoles, role.rid ≠ rid := fun role hrole => by
  simpa using List.find?_eq_none.mp h role hrole

theorem updateRole_nodup {db db' : Database} {rid : String} {fields : RoleFields} {now : Time}
    (h : db.updateRole rid fields now = .ok db') :
    ((setRow CustomRole.rid rid (CustomRole.set fields now) db.customRoles).map CustomRole.key).Nodup := by
  by_contra hdup
  rw [Database.updateRole, dif_neg hdup] at h
  cases h

/-- Rewriting a role changes nothing if the row and its rules are as they were. -/
theorem unchanged_updateRole {role : CustomRole} {fields : RoleFields} (hrole : role ∈ s.db.customRoles) {s' : Server}
    {db : Database} (hdb : s.db.updateRole role.rid fields ctx.now = .ok db)
    (hs' : s' = { s with
      db := db
      enforcer := (s.enforcer.removeRolePolicies role.name).addCustomRolePolicies (role.set fields ctx.now).name
        (role.set fields ctx.now).permissions }) :
    Unchanged s s' ↔ role.set fields ctx.now = role ∧ s.RulesStand role := by
  obtain ⟨husers, htenants, hmemberships, -, hroles⟩ := Database.updateRole_ok hdb
  have honly : ∀ r ∈ s.db.customRoles, r.rid = role.rid → r = role := fun r hr =>
    List.inj_on_of_nodup_map s.db.roleKeys hr hrole
  have hrows : db.customRoles = s.db.customRoles ↔ role.set fields ctx.now = role := by
    rw [hroles, setRow_eq_self]
    exact ⟨fun h => h role hrole rfl, fun h r hr hrid => by rw [honly r hr hrid, h]⟩
  rw [hs']
  constructor
  · intro h
    have hset := hrows.mp h.customRoles
    refine ⟨hset, fun p hp => ?_⟩
    have hp' := h.policies p
    rw [mem_addCustomRolePolicies, mem_removeRolePolicies, hset, hp] at hp'
    simpa using hp'.symm
  · rintro ⟨hset, hrules⟩
    refine ⟨husers, htenants, hmemberships, hrows.mpr hset, fun p => ?_, fun g => by simp⟩
    rw [mem_addCustomRolePolicies, mem_removeRolePolicies, hset]
    by_cases hp : p.sub = role.name
    · rw [hrules p hp]
      simp [hp]
    · rw [and_iff_left hp, or_iff_left]
      rintro ⟨perm, _, rfl⟩
      exact hp rfl

theorem settles_updateRole (rid : String) (req : UpdateRoleRequest) :
    Settles cfg ctx s (.updateRole rid req) (updateRole ctx rid req) := by
  simp only [Settles, updateRole, ensures_bind, ensures_query, ensures_orRaise, ensures_require, ensures_flush,
    ensures_enforce, ensures_pure, true_and]
  refine ⟨fun role hfound => ?_, fun hnone role hrole hrid => absurd hrid (getRole_none hnone role hrole)⟩
  obtain ⟨hrole, rfl⟩ := Database.getRole_mem hfound
  have honly : ∀ P : CustomRole → Prop, (∀ r ∈ s.db.customRoles, r.rid = role.rid → P r) ↔ P role := fun P =>
    ⟨fun h => h role hrole rfl, fun h r hr hrid => List.inj_on_of_nodup_map s.db.roleKeys hr hrole hrid ▸ h⟩
  have hgiven : (req.name.isSome ∨ req.description.isSome ∨ req.permissions.isSome) ↔
      ¬ (req.name = none ∧ req.description = none ∧ req.permissions = none) := by
    cases req.name <;> cases req.description <;> cases req.permissions <;> simp
  simp only [Idle, honly]
  refine ⟨fun hsystem => ⟨fun hfree => ⟨fun hfields => ⟨fun db hdb => ⟨fun updated hupdated => ?_, fun hnone => ?_⟩,
    fun e he => ?_⟩, fun hnone => ?_⟩, fun htaken => ?_⟩, fun hsystem => ?_⟩
  · obtain ⟨-, -, -, -, hroles⟩ := Database.updateRole_ok hdb
    rw [Database.getRole, hroles, getRole_setRow hfound] at hupdated
    obtain rfl := Option.some.inj hupdated
    have hnodup := updateRole_nodup hdb
    have hclash : ¬ s.db.NameClashes ctx role.rid req req.fields := by
      rintro (⟨r, hr, hne⟩ | hdup)
      · exact hne (hfree r hr)
      · exact hdup hnodup
    rw [or_iff_right (by simp [hsystem]), or_iff_right hclash, or_iff_right (hgiven.mp hfields)]
    exact unchanged_updateRole hrole hdb rfl
  · -- the row that has been written is found
    exfalso
    obtain ⟨-, -, -, -, hroles⟩ := Database.updateRole_ok hdb
    rw [Database.getRole, hroles, getRole_setRow hfound] at hnone
    cases hnone
  · refine .inr (.inl (.inr fun hnodup => ?_))
    have hwritten : s.db.updateRole role.rid req.fields ctx.now = .ok _ := dif_pos hnodup
    have hrefused : s.db.updateRole role.rid req.fields ctx.now = .error e := he
    rw [hwritten] at hrefused
    cases hrefused
  · exact .inr (.inr (.inl (not_not.mp (mt hgiven.mpr hnone))))
  · push Not at htaken
    exact .inr (.inl (.inl htaken))
  · cases hsys : role.isSystem with
    | true => exact .inl rfl
    | false => exact absurd hsys hsystem

theorem settles_deleteRole (rid : String) : Settles cfg ctx s (.deleteRole rid) (deleteRole rid) := by
  simp only [Settles, deleteRole, ensures_bind, ensures_query, ensures_orRaise, ensures_require, ensures_execute,
    ensures_enforce, true_and]
  refine ⟨fun role hfound => ⟨fun hsystem => ?_, fun hsystem r hr hrid => ?_⟩,
    fun hnone role hrole hrid => absurd hrid (getRole_none hnone role hrole)⟩
  · obtain ⟨hrole, hrid⟩ := Database.getRole_mem hfound
    constructor
    · intro h
      have hsame : s.db.customRoles.filter (fun r => r.rid ≠ rid) = s.db.customRoles := h.customRoles
      rw [← hsame, List.mem_filter] at hrole
      exact absurd hrid (of_decide_eq_true hrole.2)
    · intro h
      rw [h role hrole hrid] at hsystem
      cases hsystem
  · obtain ⟨hrole, hrid'⟩ := Database.getRole_mem hfound
    rw [List.inj_on_of_nodup_map s.db.roleKeys hr hrole (hrid.trans hrid'.symm)]
    simpa using hsystem

theorem settles_op {op : Op} (hop : op.Administers) : Settles cfg ctx s op (op.run cfg ctx) := by
  cases op <;> try exact hop.elim
  all_goals simp only [Op.run, Settles, ensures_bind, ensures_pure]
  case createUser req => exact settles_createUser req
  case updateUser rid req => exact settles_updateUser rid req
  case deleteUser rid => exact settles_deleteUser rid
  case resetPassword rid password => exact settles_resetPassword rid password
  case createTenant req => exact settles_createTenant req
  case updateTenant rid req => exact settles_updateTenant rid req
  case deleteTenant rid => exact settles_deleteTenant rid
  case addMember tenantRid req => exact settles_addMember tenantRid req
  case updateMemberRole tenantRid userRid role => exact settles_updateMemberRole tenantRid userRid role
  case removeMember tenantRid userRid => exact settles_removeMember tenantRid userRid
  case createRole req => exact settles_createRole req
  case updateRole rid req => exact settles_updateRole rid req
  case deleteRole rid => exact settles_deleteRole rid
  case assignRoleToUser userRid role => exact settles_assignRoleToUser userRid role

theorem unchanged_iff_idle {op : Op} (hop : op.Administers) :
    Unchanged s (s.next cfg (.call ctx op)) ↔ Idle cfg ctx s op := by
  have hsettles : Settles cfg ctx s op (op.run cfg ctx) := settles_op hop
  cases hrun : (op.run cfg ctx).run s with
  | mk r s' =>
    cases r with
    | ok reply =>
      rw [next_call_ok hrun]
      exact hsettles.ok hrun
    | error e =>
      rw [next_call_error hrun]
      obtain ⟨henforcer, hidle⟩ := hsettles.error hrun
      exact iff_of_true ⟨rfl, rfl, rfl, rfl, fun p => by rw [henforcer], fun g => by rw [henforcer]⟩ hidle

end Methods

section Requests
variable (cfg : Config) (rm : RoleManager) (required : Op → Query) (devMode : Bool)
variable (validateToken : String → Except String TokenPayload)

/-- The request of the caller changes something only if he has the permission. -/
def Mediated (s : Server) (h : Headers) (who : Identity) (ctx : Ctx) (op : Op) : Prop :=
  ¬ Unchanged s (s.request cfg devMode validateToken h ctx op) →
    s.enforcer.checkPermission rm who.userId (required op) = true

/-- Whatever permission the routes are meant to require, an authenticated request is mediated exactly if the caller
has it or the request is idle. -/
theorem mediated_iff {s : Server} {h : Headers} {who : Identity} {op : Op} (ctx : Ctx)
    (hwho : authenticate devMode validateToken s.blacklist h = .ok who) (hop : op.Administers) :
    Mediated cfg rm required devMode validateToken s h who ctx op ↔
      s.enforcer.checkPermission rm who.userId (required op) = true ∨ Idle cfg (ctx.actingAs who) s op := by
  have hrequest : s.request cfg devMode validateToken h ctx op = s.next cfg (.call (ctx.actingAs who) op) := by
    rw [Server.request, hwho]
  rw [Mediated, hrequest, unchanged_iff_idle hop, ← or_iff_not_imp_left, or_comm]

end Requests

/-- A viewer of the only tenant. -/
def viewerJoined : Server :=
  runFrom (Server.next .plain) (Server.seeded .plain (.plain "" "" 0))
    [.call (.plain "ri.user.i" "ri.tenant." 1) (.createUser
      { email := "v@example.com", displayName := ⟨"V", fits_v⟩, password := "secret123", role := .viewer })]

def viewer : Identity := ⟨"ri.user.n", "ri.tenant.", "viewer"⟩

/-- Every token is the viewer's. -/
def viewerToken (_ : String) : Except String TokenPayload := .ok ⟨"ri.user.n", "ri.tenant.", "viewer", "nn", 2, 902⟩

def viewerCookie : Headers := { accessToken := some "token" }

def createsAdmin : Op :=
  .createUser { email := "w@example.com", displayName := ⟨"W", fits_w⟩, password := "secret123", role := .admin }

def createUserQuery (_ : Op) : Query := ⟨"user", "create", none⟩

theorem mediated_iff_viewer :
    Mediated .plain defaultRoleManager createUserQuery false viewerToken viewerJoined viewerCookie viewer
        (.plain "" "" 3) createsAdmin ↔
      viewerJoined.enforcer.checkPermission defaultRoleManager viewer.userId (createUserQuery createsAdmin) = true ∨
        Idle .plain ((Ctx.plain "" "" 3).actingAs viewer) viewerJoined createsAdmin := by
  have hwho : authenticate false viewerToken viewerJoined.blacklist viewerCookie = .ok viewer := by decide +kernel
  exact mediated_iff .plain defaultRoleManager createUserQuery false viewerToken _ hwho trivial

/-- The viewer creates an admin. -/
theorem unmediated : Reachable .plain viewerJoined ∧
    authenticate false viewerToken viewerJoined.blacklist viewerCookie = .ok viewer ∧
    ¬ Mediated .plain defaultRoleManager createUserQuery false viewerToken viewerJoined viewerCookie viewer
      (.plain "" "" 3) createsAdmin := by
  have hstart : (booted .plain (.plain "" "" 0) (Server.empty .plain)).1 = .ok () := by decide +kernel
  have hreach : Reachable .plain viewerJoined := by
    unfold viewerJoined
    exact ⟨_, _, hstart, rfl⟩
  refine ⟨hreach, by decide +kernel, fun h => ?_⟩
  have hrefused : viewerJoined.enforcer.checkPermission defaultRoleManager viewer.userId
      (createUserQuery createsAdmin) = false := by decide +kernel
  have hadded : (viewerJoined.request .plain false viewerToken viewerCookie (.plain "" "" 3) createsAdmin).db.users ≠
      viewerJoined.db.users := by decide +kernel
  have hallowed := h fun hsame => hadded hsame.users
  rw [hrefused] at hallowed
  cases hallowed

end Lingshu.Setting
