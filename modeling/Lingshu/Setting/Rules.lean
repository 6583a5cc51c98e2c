import Lingshu.Setting.Startup

/-! # The rules and the tables

`PoliciesMatch`: the policies in memory are those of the system roles and of the table of roles.
`GroupingsHeld`: every grouping in memory is the role of a membership. A role whose name another role has too
breaks the first when it is changed or deleted; nothing breaks the second. -/
namespace Lingshu.Setting
open Interaction PermissionEnforcer
set_option autoImplicit false

/-! ## System roles -/

instance {P : SystemRole → Prop} [DecidablePred P] : Decidable (∃ role, P role) :=
  decidable_of_iff (∃ role ∈ systemRoles, P role) (by
    constructor
    · rintro ⟨role, _, h⟩
      exact ⟨role, h⟩
    · rintro ⟨role, h⟩
      exact ⟨role, by cases role <;> decide, h⟩)

def IsSystemName (name : String) : Prop := ∃ role : SystemRole, role.name = name

instance (name : String) : Decidable (IsSystemName name) := by
  unfold IsSystemName
  infer_instance

theorem isSystemName_name (role : SystemRole) : IsSystemName role.name := ⟨role, rfl⟩

theorem isSystemName_of_seedRules {p : Policy} (h : p ∈ seedRules) : IsSystemName p.sub := by
  obtain ⟨role, perm, _, rfl⟩ := mem_seedRules.mp h
  exact ⟨role, rfl⟩

/-- No rid is the name of a system role. -/
theorem not_isSystemName_generateRid (resourceType uuid : String) :
    ¬ IsSystemName (generateRid resourceType uuid) := by
  rintro ⟨role, h⟩
  have hlist := congrArg String.toList h
  cases role <;> simp [SystemRole.name, generateRid] at hlist

/-! ## Policies -/

namespace Authz

def PoliciesMatch (a : Authz) : Prop :=
  ∀ p, p ∈ a.enforcer.policies ↔ p ∈ seedRules ∨
    ∃ r ∈ a.customRoles, r.isSystem = false ∧ ∃ perm ∈ r.permissions, policyOf r.name perm = p

/-- No other role has the name of the role. -/
def Sole (a : Authz) (role : CustomRole) : Prop :=
  ¬ IsSystemName role.name ∧ ∀ r ∈ a.customRoles, r.isSystem = false → r.name = role.name → r = role

end Authz

/-- The event changes or deletes the role with the rid. -/
def Event.Rewrites (rid : String) : Event → Prop
  | .call _ (.updateRole rid' _) | .call _ (.deleteRole rid') => rid' = rid
  | _ => False

section Policies
variable {cfg : Config} {s : Server}

theorem role_eq_of_rid {r role : CustomRole} (hr : r ∈ s.authz.customRoles) (hrole : role ∈ s.authz.customRoles)
    (h : r.rid = role.rid) : r = role := List.inj_on_of_nodup_map s.db.roleKeys hr hrole h

/-- Replacing the rules of a role that is alone in its name. -/
theorem policies_replaced {role : CustomRole} {fields : RoleFields} {now : Time} (h : s.authz.PoliciesMatch)
    (hrole : role ∈ s.authz.customRoles) (hsystem : role.isSystem = false) (hsole : s.authz.Sole role) (p : Policy) :
    p ∈ ((s.authz.enforcer.removeRolePolicies role.name).addCustomRolePolicies (role.set fields now).name
        (role.set fields now).permissions).policies ↔
      p ∈ seedRules ∨ ∃ r ∈ setRow CustomRole.rid role.rid (CustomRole.set fields now) s.authz.customRoles,
        r.isSystem = false ∧ ∃ perm ∈ r.permissions, policyOf r.name perm = p := by
  rw [mem_addCustomRolePolicies, mem_removeRolePolicies, h p]
  constructor
  · rintro (⟨hp | ⟨r, hr, hsys, perm, hperm, rfl⟩, hsub⟩ | ⟨perm, hperm, rfl⟩)
    · exact .inl hp
    · have hne : r.rid ≠ role.rid := fun he => hsub (congrArg CustomRole.name (role_eq_of_rid hr hrole he))
      exact .inr ⟨r, mem_setRow.mpr ⟨r, hr, if_neg hne⟩, hsys, perm, hperm, rfl⟩
    · exact .inr ⟨_, mem_setRow.mpr ⟨role, hrole, if_pos rfl⟩, hsystem, perm, hperm, rfl⟩
  · rintro (hp | ⟨r', hr', hsys, perm, hperm, rfl⟩)
    · refine .inl ⟨.inl hp, fun hsub => hsole.1 ?_⟩
      rw [← hsub]
      exact isSystemName_of_seedRules hp
    · obtain ⟨r, hr, rfl⟩ := mem_setRow.mp hr'
      by_cases he : r.rid = role.rid
      · obtain rfl := role_eq_of_rid hr hrole he
        rw [if_pos rfl] at hperm ⊢
        exact .inr ⟨perm, hperm, rfl⟩
      · rw [if_neg he] at hsys hperm ⊢
        refine .inl ⟨.inr ⟨r, hr, hsys, perm, hperm, rfl⟩, fun hsub => he ?_⟩
        rw [hsole.2 r hr hsys hsub]

theorem policies_removed {role : CustomRole} (h : s.authz.PoliciesMatch) (hrole : role ∈ s.authz.customRoles)
    (hsole : s.authz.Sole role) (p : Policy) :
    p ∈ (s.authz.enforcer.removeRolePolicies role.name).policies ↔
      p ∈ seedRules ∨ ∃ r ∈ s.authz.customRoles.filter fun r => r.rid ≠ role.rid,
        r.isSystem = false ∧ ∃ perm ∈ r.permissions, policyOf r.name perm = p := by
  rw [mem_removeRolePolicies, h p]
  constructor
  · rintro ⟨hp | ⟨r, hr, hsys, perm, hperm, rfl⟩, hsub⟩
    · exact .inl hp
    · have hne : r.rid ≠ role.rid := fun he => hsub (congrArg CustomRole.name (role_eq_of_rid hr hrole he))
      exact .inr ⟨r, List.mem_filter.mpr ⟨hr, decide_eq_true hne⟩, hsys, perm, hperm, rfl⟩
  · rintro (hp | ⟨r, hr, hsys, perm, hperm, rfl⟩)
    · refine ⟨.inl hp, fun hsub => hsole.1 ?_⟩
      rw [← hsub]
      exact isSystemName_of_seedRules hp
    · obtain ⟨hr, hne⟩ := List.mem_filter.mp hr
      refine ⟨.inr ⟨r, hr, hsys, perm, hperm, rfl⟩, fun hsub => of_decide_eq_true hne ?_⟩
      rw [hsole.2 r hr hsys hsub]

/-- The rules that a start builds. -/
theorem policies_rebuilt (ms : List Membership) (rs rows : List CustomRole) {tenants : List String}
    (hrows : ∀ r ∈ rows, r.SystemRow tenants) (p : Policy) :
    p ∈ (rebuilt cfg.rbacEnabled ms (rs ++ rows)).policies ↔
      p ∈ seedRules ∨ ∃ r ∈ rs, r.isSystem = false ∧ ∃ perm ∈ r.permissions, policyOf r.name perm = p := by
  have hskip : (∃ r ∈ rs ++ rows, r.isSystem = false ∧ ∃ perm ∈ r.permissions, policyOf r.name perm = p) ↔
      ∃ r ∈ rs, r.isSystem = false ∧ ∃ perm ∈ r.permissions, policyOf r.name perm = p := by
    constructor
    · rintro ⟨r, hr, hsys, hp⟩
      rcases List.mem_append.mp hr with hr | hr
      · exact ⟨r, hr, hsys, hp⟩
      · rw [(hrows r hr).system] at hsys
        cases hsys
    · rintro ⟨r, hr, hp⟩
      exact ⟨r, List.mem_append_left _ hr, hp⟩
  rw [rebuilt, mem_syncCustomRoles, syncMemberships_policies, mem_seedPolicies, hskip]
  simp [create]

theorem groupings_rebuilt (ms : List Membership) (rs : List CustomRole) (g : Grouping) :
    g ∈ (rebuilt cfg.rbacEnabled ms rs).groupings ↔ ∃ m ∈ ms, g = (m.userRid, m.role) := by
  rw [rebuilt, syncCustomRoles_groupings, mem_syncMemberships, seedPolicies_groupings]
  simp [create]

theorem PoliciesMatch.step {e : Event} {a : Authz} (h : Step cfg s e a) (hmatch : s.authz.PoliciesMatch)
    (hsole : ∀ role ∈ s.authz.customRoles, role.isSystem = false → e.Rewrites role.rid → s.authz.Sole role) :
    a.PoliciesMatch := by
  cases h with
  | call ctx op a heffect =>
    cases heffect with
    | keep => exact hmatch
    | sync | addUser | addMember | setRole | provision =>
      intro p
      simp only [syncUserRole_policies, removeUserRole_policies]
      exact hmatch p
    | addTenant => exact hmatch
    | removeMember => exact hmatch
    | createRole req role hsystem ht hname hnew =>
      intro p
      have hrows : (∃ r ∈ s.authz.customRoles ++ [role], r.isSystem = false ∧
          ∃ perm ∈ r.permissions, policyOf r.name perm = p) ↔
          (∃ r ∈ s.authz.customRoles, r.isSystem = false ∧ ∃ perm ∈ r.permissions, policyOf r.name perm = p) ∨
            ∃ perm ∈ role.permissions, policyOf role.name perm = p := by
        simp only [List.mem_append, List.mem_singleton, or_and_right, exists_or, exists_eq_left, hsystem, true_and]
      rw [mem_addCustomRolePolicies, hmatch p, or_assoc, hrows]
    | updateRole req role fields hrole hsystem hname =>
      exact policies_replaced hmatch hrole hsystem (hsole role hrole hsystem rfl)
    | deleteRole role hrole hsystem => exact policies_removed hmatch hrole (hsole role hrole hsystem rfl)
  | restart ctx rows hrows =>
    intro p
    rw [policies_rebuilt _ _ _ hrows]
    refine or_congr_right ?_
    constructor
    · rintro ⟨r, hr, hp⟩
      exact ⟨r, List.mem_append_left _ hr, hp⟩
    · rintro ⟨r, hr, hsys, hp⟩
      rcases List.mem_append.mp hr with hr | hr
      · exact ⟨r, hr, hsys, hp⟩
      · rw [(hrows r hr).system] at hsys
        cases hsys
  | failed => exact hmatch
  | reorder => exact hmatch

/-! ## Groupings -/

namespace Authz

def GroupingsHeld (a : Authz) : Prop := ∀ g ∈ a.enforcer.groupings, ∃ m ∈ a.memberships, g = (m.userRid, m.role)

end Authz

/-- A grouping is taken away with the role it stands for. -/
theorem GroupingsHeld.step {e : Event} {a : Authz} (h : Step cfg s e a) (hheld : s.authz.GroupingsHeld) :
    a.GroupingsHeld := by
  have happend : ∀ (ms : List Membership) (g : Grouping), (∃ m ∈ s.authz.memberships, g = (m.userRid, m.role)) →
      ∃ m ∈ s.authz.memberships ++ ms, g = (m.userRid, m.role) := by
    rintro ms g ⟨m, hm, rfl⟩
    exact ⟨m, List.mem_append_left _ hm, rfl⟩
  have hlast : ∀ m : Membership, m ∈ s.authz.memberships ++ [m] := by simp
  cases h with
  | call ctx op a heffect =>
    cases heffect with
    | keep => exact hheld
    | sync op hop m hm =>
      intro g hg
      rcases mem_syncUserRole.mp hg with hg | rfl
      · exact hheld g hg
      · exact ⟨m, hm, rfl⟩
    | addUser | addMember =>
      intro g hg
      rcases mem_syncUserRole.mp hg with hg | rfl
      · exact happend _ g (hheld g hg)
      · exact ⟨_, hlast _, rfl⟩
    | addTenant => exact fun g hg => happend _ g (hheld g hg)
    | setRole op m role hm hop =>
      intro g hg
      rcases mem_syncUserRole.mp hg with hg | rfl
      · obtain ⟨hg, hne⟩ := mem_removeUserRole.mp hg
        obtain ⟨m', hm', rfl⟩ := hheld g hg
        have hkey : m'.key ≠ m.key := fun hkey =>
          hne (by rw [List.inj_on_of_nodup_map s.db.membershipKeys hm' hm hkey])
        exact ⟨m', List.mem_map.mpr ⟨m', hm', if_neg hkey⟩, rfl⟩
      · exact ⟨{ m with role := role }, List.mem_map.mpr ⟨m, hm, if_pos rfl⟩, rfl⟩
    | removeMember m hm hadmin =>
      intro g hg
      obtain ⟨hg, hne⟩ := mem_removeUserRole.mp hg
      obtain ⟨m', hm', rfl⟩ := hheld g hg
      have hkey : m'.key ≠ m.key := fun hkey =>
        hne (by rw [List.inj_on_of_nodup_map s.db.membershipKeys hm' hm hkey])
      exact ⟨m', List.mem_filter.mpr ⟨hm', decide_eq_true hkey⟩, rfl⟩
    | createRole =>
      intro g hg
      rw [addCustomRolePolicies_groupings] at hg
      exact hheld g hg
    | updateRole =>
      intro g hg
      rw [addCustomRolePolicies_groupings] at hg
      exact hheld g hg
    | deleteRole => exact hheld
    | provision idp userRid tenantRid m hu ht hidp hnew hm =>
      intro g hg
      rcases mem_syncUserRole.mp hg with hg | rfl
      · exact happend _ g (hheld g hg)
      · exact ⟨m, hm.mem.1, by rw [hm.mem.2]⟩
  | restart => exact fun g hg => (groupings_rebuilt _ _ g).mp hg
  | failed => exact hheld
  | reorder ts ms tenants memberships ht hm =>
    intro g hg
    obtain ⟨m, hm', rfl⟩ := hheld g hg
    exact ⟨m, hm.mem_iff.mpr hm', rfl⟩

theorem Step.enabled {e : Event} {a : Authz} (h : Step cfg s e a)
    (hcfg : s.authz.enforcer.rbacEnabled = cfg.rbacEnabled) : a.enforcer.rbacEnabled = cfg.rbacEnabled := by
  cases h with
  | call ctx op a heffect => cases heffect <;> simpa using hcfg
  | restart => simp [rebuilt, create]
  | failed => exact hcfg
  | reorder => exact hcfg

/-! ## The first start -/

theorem policiesMatch_seeded {ctx : Ctx} (hboot : (booted cfg ctx (Server.empty cfg)).1 = .ok ()) :
    (Server.seeded cfg ctx).authz.PoliciesMatch := by
  obtain ⟨rows, hrows, hauthz⟩ := authz_seeded hboot
  rw [hauthz]
  intro p
  have hnone : ¬ ∃ r ∈ rows, r.isSystem = false ∧ ∃ perm ∈ r.permissions, policyOf r.name perm = p := by
    rintro ⟨r, hr, hsystem, -⟩
    rw [(hrows r hr).system] at hsystem
    cases hsystem
  simp [hnone, mem_seedPolicies, create]

theorem enabled_seeded {ctx : Ctx} (hboot : (booted cfg ctx (Server.empty cfg)).1 = .ok ()) :
    (Server.seeded cfg ctx).authz.enforcer.rbacEnabled = cfg.rbacEnabled := by
  obtain ⟨rows, hrows, hauthz⟩ := authz_seeded hboot
  rw [hauthz]
  simp [create]

theorem users_seeded {ctx : Ctx} (hboot : (booted cfg ctx (Server.empty cfg)).1 = .ok ()) :
    (Server.seeded cfg ctx).db.users ≠ [] := by
  obtain ⟨rows, hrows, hauthz⟩ := authz_seeded hboot
  have husers := congrArg Authz.users hauthz
  intro hempty
  simp [Server.authz, hempty] at husers

end Policies
end Lingshu.Setting
