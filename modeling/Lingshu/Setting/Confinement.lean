import Lingshu.Setting.Rules

/-! # Whom role administration reaches

The rules of a custom role stand under its bare name. Creating, changing or deleting a role reaches every user who
is linked to one of the names it touches, in whatever tenant. -/
namespace Lingshu.Setting
open Interaction PermissionEnforcer
set_option autoImplicit false

/-- A call of `create_role`, `update_role` or `delete_role` in the tenant. -/
def RoleCall (tenantRid : String) : Event → Prop
  | .call ctx (.createRole _) | .call ctx (.updateRole _ _) | .call ctx (.deleteRole _) => ctx.tenantId = tenantRid
  | _ => False

/-- Users whom role administration in the tenant is not about. -/
def Authz.Protected (a : Authz) (tenantRid u : String) : Prop :=
  u ∈ a.users ∧ ((∀ m ∈ a.memberships, m.userRid = u → m.tenantRid ≠ tenantRid) ∨
    ∃ m ∈ a.memberships, m.userRid = u ∧ IsSystemName m.role)

instance (a : Authz) (tenantRid u : String) : Decidable (a.Protected tenantRid u) := by
  unfold Authz.Protected
  infer_instance

/-- The names whose rules the call adds to or removes: a new role's name, the name of the role that is changed or
deleted, and the name it gets. -/
def Touches (s : Server) : Event → String → Prop
  | .call ctx (.createRole req), name =>
    name = req.name ∧ (ctx.tenantId, (req.name : String)) ∉ s.authz.customRoles.map CustomRole.key
  | .call _ (.updateRole rid req), name =>
    ∃ role ∈ s.authz.customRoles, role.rid = rid ∧ role.isSystem = false ∧
      (name = role.name ∨ req.name.map Subtype.val = some name)
  | .call _ (.deleteRole rid), name =>
    ∃ role ∈ s.authz.customRoles, role.rid = rid ∧ role.isSystem = false ∧ name = role.name
  | _, _ => False

/-- No protected user is linked to a name that the call touches. -/
def Confined (rm : RoleManager) (tenantRid : String) (s : Server) (e : Event) : Prop :=
  ∀ u, s.authz.Protected tenantRid u → ∀ name, Touches s e name → ¬ rm.hasLink s.enforcer.groupings u name

/-- Nothing but roles and the rules of touched names has changed. -/
structure RoleFrame (touched : String → Prop) (a a' : Authz) : Prop where
  users : a'.users = a.users
  memberships : a'.memberships = a.memberships
  enabled : a'.enforcer.rbacEnabled = a.enforcer.rbacEnabled
  groupings : a'.enforcer.groupings = a.enforcer.groupings
  policies : ∀ p, ¬ touched p.sub → (p ∈ a'.enforcer.policies ↔ p ∈ a.enforcer.policies)

section Steps
variable {cfg : Config} {rm : RoleManager} {s : Server} {e : Event} {tenantRid : String}

theorem RoleFrame.refl (touched : String → Prop) (a : Authz) : RoleFrame touched a a :=
  ⟨rfl, rfl, rfl, rfl, fun _ _ => Iff.rfl⟩

theorem RoleFrame.of_effect {a : Authz} (hcall : RoleCall tenantRid e) (h : Step cfg s e a) :
    RoleFrame (Touches s e) s.authz a := by
  cases h with
  | call ctx op a heffect =>
    cases heffect with
    | keep => exact .refl _ _
    | sync op hop => cases op <;> first | exact hop.elim | exact hcall.elim
    | addUser op _ _ _ _ hop => rcases hop with ⟨req, rfl⟩ | ⟨idp, rfl⟩ <;> exact hcall.elim
    | addTenant | addMember | removeMember | provision => exact hcall.elim
    | setRole op m role hm hop => rcases hop with ⟨r, rfl, rfl⟩ | ⟨rfl, -⟩ <;> exact hcall.elim
    | createRole req role hsystem ht hname hnew =>
      refine ⟨rfl, rfl, by simp, by simp, fun p hp => ?_⟩
      rw [mem_addCustomRolePolicies, or_iff_left]
      rintro ⟨perm, _, rfl⟩
      refine hp ⟨hname, ?_⟩
      rwa [← ht, ← hname]
    | updateRole req role fields hrole hsystem hname =>
      refine ⟨rfl, rfl, by simp, by simp, fun p hp => ?_⟩
      have hold : p.sub ≠ role.name := fun h => hp ⟨role, hrole, rfl, hsystem, .inl h⟩
      rw [mem_addCustomRolePolicies, mem_removeRolePolicies, or_iff_left, and_iff_left hold]
      rintro ⟨perm, _, rfl⟩
      refine hp ⟨role, hrole, rfl, hsystem, ?_⟩
      rw [← hname]
      have hnew : (policyOf (role.set fields ctx.now).name perm).sub = fields.name.getD role.name := rfl
      rw [hnew]
      cases fields.name with
      | none => exact .inl rfl
      | some name => exact .inr rfl
    | deleteRole role hrole hsystem =>
      refine ⟨rfl, rfl, rfl, rfl, fun p hp => ?_⟩
      have hold : p.sub ≠ role.name := fun h => hp ⟨role, hrole, rfl, hsystem, h⟩
      rw [mem_removeRolePolicies, and_iff_left hold]
  | restart | failed | reorder => exact hcall.elim

theorem roleFrame_next (hcall : RoleCall tenantRid e) :
    RoleFrame (Touches s e) s.authz (s.next cfg e).authz := by
  cases e with
  | call ctx op =>
    have hfresh : op.SignsIn → ctx.FreshToken cfg s.db := by
      cases op <;> first | exact fun h => h.elim | exact hcall.elim
    have hstep : Step cfg s (.call ctx op) _ := .call ctx op _ (effect_of_call op hfresh)
    exact RoleFrame.of_effect hcall hstep
  | restart | reorder => exact hcall.elim

/-- Whoever is not linked to a touched name is answered as before. -/
theorem RoleFrame.check {a a' : Authz} {touched : String → Prop} (h : RoleFrame touched a a') {u : String}
    (hu : ∀ name, touched name → ¬ rm.hasLink a.enforcer.groupings u name) (q : Query) :
    a'.enforcer.checkPermission rm u q = a.enforcer.checkPermission rm u q := by
  have hany : (a'.enforcer.policies.any fun p => rm.hasLink a.enforcer.groupings u p.sub && p.covers q) =
      a.enforcer.policies.any fun p => rm.hasLink a.enforcer.groupings u p.sub && p.covers q := by
    have hrule : ∀ p, rm.hasLink a.enforcer.groupings u p.sub ∧ p.covers q →
        (p ∈ a'.enforcer.policies ↔ p ∈ a.enforcer.policies) :=
      fun p hp => h.policies p fun htouched => hu p.sub htouched hp.1
    rw [Bool.eq_iff_iff, List.any_eq_true, List.any_eq_true]
    simp only [Bool.and_eq_true]
    constructor
    · rintro ⟨p, hp, hmatch⟩
      exact ⟨p, (hrule p hmatch).mp hp, hmatch⟩
    · rintro ⟨p, hp, hmatch⟩
      exact ⟨p, (hrule p hmatch).mpr hp, hmatch⟩
  rw [PermissionEnforcer.checkPermission, PermissionEnforcer.checkPermission, h.enabled, h.groupings, hany]

theorem RoleFrame.isProtected {a a' : Authz} {touched : String → Prop} (h : RoleFrame touched a a') {u : String}
    (hu : a.Protected tenantRid u) : a'.Protected tenantRid u := by
  unfold Authz.Protected
  rw [h.users, h.memberships]
  exact hu

end Steps

/-- Role administration in a tenant changes no answer for the users it is not about, as long as they are linked to
none of the names it touches. -/
theorem role_administration_confined (cfg : Config) (rm : RoleManager) (tenantRid : String) (s : Server)
    (es : List Event) (hcalls : ∀ e ∈ es, RoleCall tenantRid e)
    (hconfined : StepsMeet (Server.next cfg) (Confined rm tenantRid) s es) (u : String)
    (hu : s.authz.Protected tenantRid u) (q : Query) :
    (runFrom (Server.next cfg) s es).enforcer.checkPermission rm u q = s.enforcer.checkPermission rm u q := by
  induction es generalizing s with
  | nil => rfl
  | cons e es ih =>
    have hframe : RoleFrame (Touches s e) s.authz (s.next cfg e).authz :=
      roleFrame_next (hcalls e (List.mem_cons_self ..))
    have hrest := ih (s.next cfg e) (fun e' he' => hcalls e' (List.mem_cons_of_mem _ he')) hconfined.2
      (hframe.isProtected hu)
    rw [runFrom_cons, hrest]
    exact hframe.check (hconfined.1 u hu) q

/-- A tenant beside the seeded one. -/
def twoTenants : Server :=
  runFrom (Server.next .plain) (Server.seeded .plain (.plain "" "" 0))
    [.call (.plain "ri.user.i" "ri.tenant." 1) (.createTenant { displayName := ⟨"Branch", fits_branch⟩ })]

def createEditor : Event :=
  .call (.plain "ri.user.i" "ri.tenant.n" 2) (.createRole
    { name := ⟨"editor", by decide⟩, permissions := [{ resourceType := "action", action := "write" }] })

def deleteEditor : Event := .call (.plain "ri.user.i" "ri.tenant.n" 3) (.deleteRole "ri.role.nn")

theorem role_administration_confined_editor :
    (runFrom (Server.next .plain) twoTenants [createEditor, deleteEditor]).enforcer.checkPermission defaultRoleManager
        "ri.user.i" ⟨"action", "write", none⟩ =
      twoTenants.enforcer.checkPermission defaultRoleManager "ri.user.i" ⟨"action", "write", none⟩ := by
  have hcalls : ∀ e ∈ [createEditor, deleteEditor], RoleCall "ri.tenant.n" e := by
    simp [createEditor, deleteEditor, RoleCall, Ctx.plain]
  have hbefore : ∀ u ∈ twoTenants.authz.users, ¬ defaultRoleManager.hasLink twoTenants.enforcer.groupings u "editor" := by
    decide +kernel
  have hcreate : Confined defaultRoleManager "ri.tenant.n" twoTenants createEditor := by
    rintro u hu name ⟨rfl, -⟩
    exact hbefore u hu.1
  have hafter : ∀ u ∈ (twoTenants.next .plain createEditor).authz.users,
      ¬ defaultRoleManager.hasLink (twoTenants.next .plain createEditor).enforcer.groupings u "editor" := by
    decide +kernel
  have hnamed : ∀ role ∈ (twoTenants.next .plain createEditor).authz.customRoles, role.rid = "ri.role.nn" →
      role.name = "editor" := by decide +kernel
  have hdelete : Confined defaultRoleManager "ri.tenant.n" (twoTenants.next .plain createEditor) deleteEditor := by
    rintro u hu name ⟨role, hrole, hrid, -, rfl⟩
    rw [hnamed role hrole hrid]
    exact hafter u hu.1
  have hadmin : twoTenants.authz.Protected "ri.tenant.n" "ri.user.i" := by decide +kernel
  exact role_administration_confined .plain defaultRoleManager "ri.tenant.n" twoTenants _ hcalls
    ⟨hcreate, hdelete, trivial⟩ "ri.user.i" hadmin _

/-- A role with the name of a system role is created and deleted. -/
def adminRun : List Event :=
  [.call (.plain "ri.user.i" "ri.tenant.n" 2) (.createRole { name := ⟨"admin", by decide⟩, permissions := [] }),
    .call (.plain "ri.user.i" "ri.tenant.n" 3) (.deleteRole "ri.role.nn")]

/-- The admin of the other tenant may do nothing any more. -/
theorem role_administration_unconfined : Reachable .plain twoTenants ∧ (∀ e ∈ adminRun, RoleCall "ri.tenant.n" e) ∧
    twoTenants.authz.Protected "ri.tenant.n" "ri.user.i" ∧
    twoTenants.enforcer.checkPermission defaultRoleManager "ri.user.i" ⟨"user", "create", none⟩ = true ∧
    (runFrom (Server.next .plain) twoTenants adminRun).enforcer.checkPermission defaultRoleManager "ri.user.i"
      ⟨"user", "create", none⟩ = false := by
  have hstart : (booted .plain (.plain "" "" 0) (Server.empty .plain)).1 = .ok () := by decide +kernel
  have hreach : Reachable .plain twoTenants := by
    unfold twoTenants
    exact ⟨_, _, hstart, rfl⟩
  exact ⟨hreach, by simp [adminRun, RoleCall, Ctx.plain], by decide +kernel, by decide +kernel, by decide +kernel⟩

end Lingshu.Setting
