import Lingshu.Setting.Service

/-! # Start-up

`run_seed`, which fills the rules in memory from the tables, and on the first run the tables. -/
namespace Lingshu.Setting
open Interaction Proc
set_option autoImplicit false

section Seed
variable (cfg : Config) (ctx : Ctx)

/-- One turn of the loops of `_seed_system_roles`; `n` values of `uuid4` have been drawn before. -/
def seedSystemRole (n : ℕ) (seeded : String × SystemRole) : Session ℕ := do
  let (tenantRid, role) := seeded
  let existing ← query fun db => db.getByName tenantRid role.name
  if existing = none then do
    flush fun db => db.insertRole ⟨generateRid "role" (ctx.uuids n), tenantRid, role.name, some role.description,
      role.permissions, true, ctx.now, ctx.now⟩
    return n + 1
  else return n

/-- `_seed_system_roles`. -/
def seedSystemRoles (n : ℕ) (tenantRids : List String) : Session Unit := do
  let _ ← (tenantRids.flatMap fun t => systemRoles.map fun r => (t, r)).foldlM (seedSystemRole ctx) n
  return ()

/-- The roles of the memberships. -/
def syncMemberships (memberships : List Membership) (e : PermissionEnforcer) : PermissionEnforcer :=
  memberships.foldl (fun e m => e.syncUserRole m.userRid m.role) e

/-- The custom role policies. -/
def syncCustomRoles (customRoles : List CustomRole) (e : PermissionEnforcer) : PermissionEnforcer :=
  customRoles.foldl (fun e r => if r.isSystem then e else e.addCustomRolePolicies r.name r.permissions) e

/-- The default tenant and its admin, for an empty database. -/
def seedTables : Session Unit := do
  let tenantRid := generateRid "tenant" (ctx.uuids 0)
  let userRid := generateRid "user" (ctx.uuids 1)
  flush fun db => db.insertTenant ⟨tenantRid, cfg.seedTenantName, .active, .dict [], ctx.now, ctx.now⟩
  flush fun db => db.insertUser ⟨userRid, cfg.seedAdminEmail, "Admin", cfg.hashpw ctx.salt cfg.seedAdminPassword, .active,
    ctx.now, ctx.now⟩
  flush fun db => db.insertMembership ⟨userRid, tenantRid, "admin", true, ctx.now⟩
  seedSystemRoles ctx 2 [tenantRid]
  enforce fun e => e.syncUserRole userRid "admin"

/-- `run_seed`. -/
def runSeed : Session Unit := do
  enforce fun e => e.seedPolicies
  let users ← query fun db => db.users
  if users = [] then seedTables cfg ctx
  else do
    let memberships ← query fun db => db.memberships
    enforce (syncMemberships memberships)
    let tenants ← query fun db => db.tenants
    seedSystemRoles ctx 0 (tenants.map Tenant.rid)
    let customRoles ← query fun db => db.customRoles
    enforce (syncCustomRoles customRoles)

end Seed

/-! ## The rules that are rebuilt -/

variable {g : Grouping} {p : Policy}

@[simp] theorem syncMemberships_rbacEnabled (ms : List Membership) (e : PermissionEnforcer) :
    (syncMemberships ms e).rbacEnabled = e.rbacEnabled := by
  induction ms generalizing e with
  | nil => rfl
  | cons m ms ih => exact (ih _).trans PermissionEnforcer.syncUserRole_rbacEnabled

@[simp] theorem syncMemberships_policies (ms : List Membership) (e : PermissionEnforcer) :
    (syncMemberships ms e).policies = e.policies := by
  induction ms generalizing e with
  | nil => rfl
  | cons m ms ih => exact (ih _).trans PermissionEnforcer.syncUserRole_policies

theorem mem_syncMemberships (ms : List Membership) (e : PermissionEnforcer) :
    g ∈ (syncMemberships ms e).groupings ↔ g ∈ e.groupings ∨ ∃ m ∈ ms, g = (m.userRid, m.role) := by
  induction ms generalizing e with
  | nil => simp [syncMemberships]
  | cons m ms ih =>
    have hstep : syncMemberships (m :: ms) e = syncMemberships ms (e.syncUserRole m.userRid m.role) := rfl
    rw [hstep, ih, PermissionEnforcer.mem_syncUserRole, List.exists_mem_cons_iff, or_assoc]

@[simp] theorem syncCustomRoles_rbacEnabled (rs : List CustomRole) (e : PermissionEnforcer) :
    (syncCustomRoles rs e).rbacEnabled = e.rbacEnabled := by
  induction rs generalizing e with
  | nil => rfl
  | cons r rs ih =>
    refine (ih _).trans ?_
    cases hsystem : r.isSystem <;> simp [hsystem]

@[simp] theorem syncCustomRoles_groupings (rs : List CustomRole) (e : PermissionEnforcer) :
    (syncCustomRoles rs e).groupings = e.groupings := by
  induction rs generalizing e with
  | nil => rfl
  | cons r rs ih =>
    refine (ih _).trans ?_
    cases hsystem : r.isSystem <;> simp [hsystem]

theorem mem_syncCustomRoles (rs : List CustomRole) (e : PermissionEnforcer) :
    p ∈ (syncCustomRoles rs e).policies ↔ p ∈ e.policies ∨
      ∃ r ∈ rs, r.isSystem = false ∧ ∃ perm ∈ r.permissions, PermissionEnforcer.policyOf r.name perm = p := by
  induction rs generalizing e with
  | nil => simp [syncCustomRoles]
  | cons r rs ih =>
    have hstep : syncCustomRoles (r :: rs) e =
        syncCustomRoles rs (if r.isSystem then e else e.addCustomRolePolicies r.name r.permissions) := rfl
    rw [hstep, ih, List.exists_mem_cons_iff]
    cases hsystem : r.isSystem with
    | true => simp
    | false => simp [or_assoc]

end Lingshu.Setting
