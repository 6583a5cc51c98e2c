import Lingshu.Setting.Rules

/-! # Decisions and memberships

A check knows the user and not the tenant. With role names kept apart (`Hygienic`) it answers what the user's
memberships grant, so that it follows the membership of the acting tenant exactly as long as the memberships of a
user grant the same in every tenant (`Uniform`). -/
namespace Lingshu.Setting
open Interaction PermissionEnforcer
set_option autoImplicit false

namespace Authz
variable (a : Authz)

/-- The role, a system role or a custom role of the tenant, grants the request. -/
def Grants (tenantRid role : String) (q : Query) : Prop :=
  (∃ r : SystemRole, r.name = role ∧ ∃ perm ∈ r.permissions, (policyOf role perm).covers q) ∨
    ∃ r ∈ a.customRoles, r.key = (tenantRid, role) ∧ r.isSystem = false ∧
      ∃ perm ∈ r.permissions, (policyOf role perm).covers q

/-- The user has a membership in the tenant whose role grants the request. -/
def Wanted (tenantRid u : String) (q : Query) : Prop :=
  ∃ m ∈ a.memberships, m.key = (u, tenantRid) ∧ a.Grants tenantRid m.role q

/-- What a user is granted is the same in every tenant. -/
def Uniform : Prop :=
  ∀ u ∈ a.users, ∀ t ∈ a.tenants, ∀ t' ∈ a.tenants, ∀ q, a.Wanted t u q → a.Wanted t' u q

/-- A membership or a role of the tenant has the name. -/
def Uses (tenantRid name : String) : Prop :=
  (∃ m ∈ a.memberships, m.tenantRid = tenantRid ∧ m.role = name) ∨
    ∃ r ∈ a.customRoles, r.tenantId = tenantRid ∧ r.name = name

/-- Neither a system role nor a user nor another tenant has the name. -/
def Unclaimed (tenantRid name : String) : Prop :=
  ¬ IsSystemName name ∧ name ∉ a.users ∧ ∀ t, a.Uses t name → t = tenantRid

instance (tenantRid role : String) (q : Query) : Decidable (a.Grants tenantRid role q) := by
  unfold Grants
  infer_instance

instance (tenantRid u : String) (q : Query) : Decidable (a.Wanted tenantRid u q) := by
  unfold Wanted
  infer_instance

end Authz

/-- Checks follow the membership of the acting tenant. -/
def Follows (rm : RoleManager) (s : Server) : Prop :=
  ∀ u ∈ s.authz.users, ∀ t ∈ s.authz.tenants, ∀ q,
    s.enforcer.checkPermission rm u q = true ↔ s.authz.Wanted t u q

/-- Names that a step brings in are not another's. -/
def Hygienic (s : Server) : Event → Prop
  | .call ctx (.createUser _) | .call ctx (.ssoCallback _) => ∀ t, ¬ s.authz.Uses t (generateRid "user" (ctx.uuids 0))
  | .call ctx (.createRole req) => s.authz.Unclaimed ctx.tenantId req.name
  | .call _ (.updateRole rid req) =>
    ∀ role ∈ s.authz.customRoles, role.rid = rid → role.isSystem = false →
      ∀ name ∈ req.name.map Subtype.val, s.authz.Unclaimed role.tenantId name
  | .call ctx (.assignRoleToUser _ name) => IsSystemName name ∨ s.authz.Unclaimed ctx.tenantId name
  | _ => True

/-! ## The invariant -/

/-- A user who is granted something has a membership that is grouped. -/
def Authz.Served (a : Authz) (u : String) : Prop :=
  (∃ t q, a.Wanted t u q) → ∃ m ∈ a.memberships, m.userRid = u ∧ (u, m.role) ∈ a.enforcer.groupings

structure Authz.Named (a : Authz) : Prop where
  policies : a.PoliciesMatch
  held : a.GroupingsHeld
  tenants : a.tenants ≠ []
  unnamed : ∀ u ∈ a.users, ¬ IsSystemName u ∧ ∀ t, ¬ a.Uses t u
  owned : ∀ t t' name, a.Uses t name → a.Uses t' name → IsSystemName name ∨ t = t'
  custom : ∀ r ∈ a.customRoles, r.isSystem = false → ¬ IsSystemName r.name
  grouped : ∀ m ∈ a.memberships, IsSystemName m.role ∨ (m.userRid, m.role) ∈ a.enforcer.groupings
  served : ∀ u, a.Served u

section Named
variable {s : Server} {rm : RoleManager}

theorem uses_membership {a : Authz} {m : Membership} (hm : m ∈ a.memberships) : a.Uses m.tenantRid m.role :=
  .inl ⟨m, hm, rfl, rfl⟩

theorem uses_role {a : Authz} {r : CustomRole} (hr : r ∈ a.customRoles) : a.Uses r.tenantId r.name :=
  .inr ⟨r, hr, rfl, rfl⟩

/-- A grouping leads to a name that nothing is grouped under: chains have one link. -/
theorem Authz.Named.hasLink (h : s.authz.Named) {u name : String} :
    rm.hasLink s.enforcer.groupings u name ↔ u = name ∨ (u, name) ∈ s.enforcer.groupings := by
  constructor
  · intro hlink
    rcases (rm.chain _ _ _ hlink).cases_head with he | ⟨role, hrole, hrest⟩
    · exact .inl he
    · rcases hrest.cases_head with rfl | ⟨role', hrole', -⟩
      · exact .inr hrole
      · obtain ⟨m, hm, he⟩ := h.held _ hrole
        obtain ⟨m', hm', he'⟩ := h.held _ hrole'
        have hrole : role = m.role := congrArg Prod.snd he
        have huser : role = m'.userRid := congrArg Prod.fst he'
        have hu : m.role ∈ s.authz.users := by
          rw [← hrole, huser]
          exact s.db.membershipUsers m' hm'
        exact absurd (uses_membership hm) ((h.unnamed _ hu).2 _)
  · rintro (rfl | hg)
    · exact rm.refl _ _
    · exact rm.direct _ _ _ hg

/-- A name of a membership and of a custom role is used in one tenant. -/
theorem Authz.Named.same_tenant (h : s.authz.Named) {m : Membership} (hm : m ∈ s.authz.memberships) {r : CustomRole}
    (hr : r ∈ s.authz.customRoles) (hsystem : r.isSystem = false) (hname : r.name = m.role) :
    r.key = (m.tenantRid, m.role) := by
  have hused : s.authz.Uses r.tenantId m.role := hname ▸ uses_role hr
  rcases h.owned _ _ _ hused (uses_membership hm) with hsys | ht
  · rw [← hname] at hsys
    exact absurd hsys (h.custom r hr hsystem)
  · rw [CustomRole.key, ht, hname]

/-- The rules under the name of a membership's role grant what the role grants in its tenant. -/
theorem Authz.Named.grants_iff (h : s.authz.Named) {m : Membership} (hm : m ∈ s.authz.memberships) (q : Query) :
    (∃ p ∈ s.enforcer.policies, p.sub = m.role ∧ p.covers q) ↔ s.authz.Grants m.tenantRid m.role q := by
  constructor
  · rintro ⟨p, hp, hsub, hcovers⟩
    rcases (h.policies p).mp hp with hseed | ⟨r, hr, hsystem, perm, hperm, rfl⟩
    · obtain ⟨role, perm, hperm, rfl⟩ := mem_seedRules.mp hseed
      exact .inl ⟨role, hsub, perm, hperm, hsub ▸ hcovers⟩
    · have hname : r.name = m.role := hsub
      exact .inr ⟨r, hr, h.same_tenant hm hr hsystem hname, hsystem, perm, hperm, hname ▸ hcovers⟩
  · rintro (⟨role, hname, perm, hperm, hcovers⟩ | ⟨r, hr, hkey, hsystem, perm, hperm, hcovers⟩)
    · refine ⟨policyOf m.role perm, (h.policies _).mpr (.inl ?_), rfl, hcovers⟩
      exact mem_seedRules.mpr ⟨role, perm, hperm, by rw [hname]⟩
    · have hname : r.name = m.role := congrArg Prod.snd hkey
      exact ⟨policyOf m.role perm, (h.policies _).mpr (.inr ⟨r, hr, hsystem, perm, hperm, by rw [hname]⟩), rfl, hcovers⟩

/-- A check answers what some grouped membership of the user grants. -/
theorem Authz.Named.check_iff (h : s.authz.Named) (hrbac : s.enforcer.rbacEnabled) {u : String} (hu : u ∈ s.authz.users)
    (q : Query) : s.enforcer.checkPermission rm u q ↔ ∃ m ∈ s.authz.memberships,
      m.userRid = u ∧ (u, m.role) ∈ s.enforcer.groupings ∧ s.authz.Grants m.tenantRid m.role q := by
  rw [checkPermission_iff rm hrbac]
  constructor
  · rintro ⟨p, hp, hlink, hcovers⟩
    rcases h.hasLink.mp hlink with he | hg
    · -- no rule stands under the name of a user
      exfalso
      rcases (h.policies p).mp hp with hseed | ⟨r, hr, -, perm, -, hpolicy⟩
      · exact (h.unnamed u hu).1 (he ▸ isSystemName_of_seedRules hseed)
      · have hname : r.name = u := by rw [he, ← hpolicy]; rfl
        exact (h.unnamed u hu).2 r.tenantId (hname ▸ uses_role hr)
    · obtain ⟨m, hm, hpair⟩ := h.held _ hg
      obtain ⟨hmu, hrole⟩ := Prod.mk.inj hpair
      refine ⟨m, hm, hmu.symm, hrole ▸ hg, (h.grants_iff hm q).mp ⟨p, hp, hrole, hcovers⟩⟩
  · rintro ⟨m, hm, hmu, hg, hgrants⟩
    obtain ⟨p, hp, hsub, hcovers⟩ := (h.grants_iff hm q).mpr hgrants
    exact ⟨p, hp, hsub ▸ h.hasLink.mpr (.inr hg), hcovers⟩

theorem uniform_of_follows (h : Follows rm s) : s.authz.Uniform := fun u hu t ht t' ht' q hwanted =>
  (h u hu t' ht' q).mp ((h u hu t ht q).mpr hwanted)

theorem Authz.Named.follows (h : s.authz.Named) (hrbac : s.enforcer.rbacEnabled) (huniform : s.authz.Uniform) :
    Follows rm s := by
  intro u hu t ht q
  have htenant : ∀ m ∈ s.authz.memberships, m.tenantRid ∈ s.authz.tenants := s.db.membershipTenants
  rw [h.check_iff hrbac hu]
  constructor
  · rintro ⟨m, hm, hmu, -, hgrants⟩
    exact huniform u hu m.tenantRid (htenant m hm) t ht q ⟨m, hm, by rw [Membership.key, hmu], hgrants⟩
  · intro hwanted
    obtain ⟨m, hm, hmu, hg⟩ := h.served u ⟨t, q, hwanted⟩
    obtain ⟨m', hm', hkey, hgrants⟩ := huniform u hu t ht m.tenantRid (htenant m hm) q hwanted
    have hsame : m' = m := List.inj_on_of_nodup_map s.db.membershipKeys hm' hm (by rw [hkey, Membership.key, hmu])
    exact ⟨m, hm, hmu, hg, hsame ▸ hgrants⟩

theorem Authz.Named.sole (h : s.authz.Named) {role : CustomRole} (hrole : role ∈ s.authz.customRoles)
    (hsystem : role.isSystem = false) : s.authz.Sole role := by
  refine ⟨h.custom role hrole hsystem, fun r hr hrsystem hname => ?_⟩
  have hused : s.authz.Uses r.tenantId role.name := hname ▸ uses_role hr
  rcases h.owned _ _ _ hused (uses_role hrole) with hsys | ht
  · exact absurd hsys (h.custom role hrole hsystem)
  · exact List.inj_on_of_nodup_map s.db.roleNames hr hrole (by rw [CustomRole.key, CustomRole.key, ht, hname])

end Named

/-! ## Steps -/

section Steps

section Uses
variable {a b : Authz} {t name : String}

theorem Authz.Uses.of_subset (h : a.Uses t name) (hms : ∀ m ∈ a.memberships, m ∈ b.memberships)
    (hroles : ∀ r ∈ a.customRoles, r ∈ b.customRoles) : b.Uses t name :=
  h.imp (fun ⟨m, hm, hname⟩ => ⟨m, hms m hm, hname⟩) fun ⟨r, hr, hname⟩ => ⟨r, hroles r hr, hname⟩

theorem Authz.Uses.of_append {m : Membership} (h : a.Uses t name) (hms : a.memberships = b.memberships ++ [m])
    (hroles : a.customRoles = b.customRoles) (hsystem : IsSystemName m.role) : b.Uses t name ∨ IsSystemName name := by
  rcases h with ⟨m', hm', ht, hname⟩ | ⟨r, hr, hname⟩
  · rw [hms] at hm'
    rcases List.mem_append.mp hm' with hm' | hm'
    · exact .inl (.inl ⟨m', hm', ht, hname⟩)
    · rw [List.mem_singleton.mp hm'] at hname
      exact .inr (hname ▸ hsystem)
  · exact .inl (.inr ⟨r, hroles ▸ hr, hname⟩)

theorem Authz.Uses.of_setRole {m : Membership} {role : String} (h : a.Uses t name)
    (hms : a.memberships = b.memberships.map (Membership.setRole m.key role)) (hroles : a.customRoles = b.customRoles) :
    b.Uses t name ∨ (t = m.tenantRid ∧ name = role) := by
  rcases h with ⟨m', hm', ht, hname⟩ | ⟨r, hr, hname⟩
  · rw [hms] at hm'
    obtain ⟨m₀, hm₀, rfl⟩ := List.mem_map.mp hm'
    by_cases hkey : m₀.key = m.key
    · rw [Membership.setRole, if_pos hkey] at ht hname
      have ht₀ : m₀.tenantRid = m.tenantRid := congrArg Prod.snd hkey
      exact .inr ⟨ht.symm.trans ht₀, hname.symm⟩
    · rw [Membership.setRole, if_neg hkey] at ht hname
      exact .inl (.inl ⟨m₀, hm₀, ht, hname⟩)
  · exact .inl (.inr ⟨r, hroles ▸ hr, hname⟩)

theorem Authz.Uses.of_createRole {role : CustomRole} (h : a.Uses t name) (hms : a.memberships = b.memberships)
    (hroles : a.customRoles = b.customRoles ++ [role]) :
    b.Uses t name ∨ (t = role.tenantId ∧ name = role.name) := by
  rcases h with ⟨m, hm, hname⟩ | ⟨r, hr, ht, hname⟩
  · exact .inl (.inl ⟨m, hms ▸ hm, hname⟩)
  · rw [hroles] at hr
    rcases List.mem_append.mp hr with hr | hr
    · exact .inl (.inr ⟨r, hr, ht, hname⟩)
    · rw [List.mem_singleton.mp hr] at ht hname
      exact .inr ⟨ht.symm, hname.symm⟩

theorem Authz.Uses.of_updateRole {role : CustomRole} {fields : RoleFields} {now : Time} (h : a.Uses t name)
    (hms : a.memberships = b.memberships)
    (hroles : a.customRoles = setRow CustomRole.rid role.rid (CustomRole.set fields now) b.customRoles)
    (hrid : ∀ r ∈ b.customRoles, r.rid = role.rid → r = role) :
    b.Uses t name ∨ (t = role.tenantId ∧ fields.name = some name) := by
  rcases h with ⟨m, hm, hname⟩ | ⟨r, hr, ht, hname⟩
  · exact .inl (.inl ⟨m, hms ▸ hm, hname⟩)
  · rw [hroles] at hr
    obtain ⟨r₀, hr₀, rfl⟩ := mem_setRow.mp hr
    by_cases hrole : r₀.rid = role.rid
    · obtain rfl := hrid r₀ hr₀ hrole
      rw [if_pos rfl] at ht hname
      cases hnew : fields.name with
      | none =>
        rw [CustomRole.set, hnew] at hname
        exact .inl (.inr ⟨r₀, hr₀, ht, hname⟩)
      | some n =>
        rw [CustomRole.set, hnew] at hname
        exact .inr ⟨ht.symm, congrArg some hname⟩
    · rw [if_neg hrole] at ht hname
      exact .inl (.inr ⟨r₀, hr₀, ht, hname⟩)

end Uses

variable {cfg : Config} {s : Server} {e : Event} {a : Authz}

/-- The names in use after a step: those in use before, system names, and at most one unclaimed name. -/
theorem uses_step (h : Step cfg s e a) (hhygienic : Hygienic s e) : ∃ T N, ∀ t name, a.Uses t name →
    s.authz.Uses t name ∨ IsSystemName name ∨
      (t = T ∧ name = N ∧ s.authz.Unclaimed T N ∧ a.users = s.authz.users) := by
  cases h with
  | call ctx op a heffect =>
    cases heffect with
    | keep => exact ⟨"", "", fun t name h => .inl h⟩
    | sync => exact ⟨"", "", fun t name h => .inl h⟩
    | addUser op tenantRid role =>
      exact ⟨"", "", fun t name h => (h.of_append rfl rfl (isSystemName_name role)).imp_right .inl⟩
    | addTenant => exact ⟨"", "", fun t name h => (h.of_append rfl rfl (isSystemName_name .admin)).imp_right .inl⟩
    | addMember tenantRid req =>
      exact ⟨"", "", fun t name h => (h.of_append rfl rfl (isSystemName_name req.role)).imp_right .inl⟩
    | provision => exact ⟨"", "", fun t name h => (h.of_append rfl rfl (isSystemName_name .member)).imp_right .inl⟩
    | setRole op m role hm hop =>
      have hrole : IsSystemName role ∨ s.authz.Unclaimed m.tenantRid role := by
        rcases hop with ⟨r, rfl, rfl⟩ | ⟨rfl, ht⟩
        · exact .inl (isSystemName_name r)
        · rw [ht]
          exact hhygienic
      refine ⟨m.tenantRid, role, fun t name h => (h.of_setRole rfl rfl).imp_right ?_⟩
      rintro ⟨rfl, rfl⟩
      exact hrole.imp_right fun hfree => ⟨rfl, rfl, hfree, rfl⟩
    | removeMember m hm hadmin =>
      exact ⟨"", "", fun t name h => .inl (h.of_subset (fun m' hm' => (List.mem_filter.mp hm').1) fun r hr => hr)⟩
    | createRole req role hsystem ht hname hnew =>
      refine ⟨ctx.tenantId, req.name, fun t name h => (h.of_createRole (b := s.authz) rfl rfl).imp_right ?_⟩
      rintro ⟨rfl, rfl⟩
      exact .inr ⟨ht, hname, hhygienic, rfl⟩
    | updateRole req role fields hrole hsystem hname =>
      refine ⟨role.tenantId, (role.set fields ctx.now).name, fun t name h => ?_⟩
      refine (h.of_updateRole (b := s.authz) rfl rfl fun r hr hrid => role_eq_of_rid hr hrole hrid).imp_right ?_
      rintro ⟨rfl, hnew⟩
      have hset : (role.set fields ctx.now).name = name := by
        rw [CustomRole.set, hnew]
        rfl
      have hfree := hhygienic role hrole rfl hsystem name (by rw [← hname, hnew]; rfl)
      exact .inr ⟨rfl, hset.symm, hset ▸ hfree, rfl⟩
    | deleteRole role hrole hsystem =>
      exact ⟨"", "", fun t name h => .inl (h.of_subset (fun m hm => hm) fun r hr => (List.mem_filter.mp hr).1)⟩
  | restart ctx rows hrows =>
    refine ⟨"", "", ?_⟩
    rintro t name (hmember | ⟨r, hr, ht, rfl⟩)
    · exact .inl (.inl hmember)
    · rcases List.mem_append.mp hr with hr | hr
      · exact .inl (.inr ⟨r, hr, ht, rfl⟩)
      · obtain ⟨role, hname, -⟩ := (hrows r hr).role
        exact .inr (.inl ⟨role, hname.symm⟩)
  | failed => exact ⟨"", "", fun t name h => .inl h⟩
  | reorder ts ms tenants memberships ht hm =>
    exact ⟨"", "", fun t name h => .inl (h.of_subset (fun m hm' => hm.mem_iff.mp hm') fun r hr => hr)⟩

theorem unnamed_step (h : Step cfg s e a) (hnamed : s.authz.Named) (hhygienic : Hygienic s e) :
    ∀ u ∈ a.users, ¬ IsSystemName u ∧ ∀ t, ¬ a.Uses t u := by
  obtain ⟨T, N, huses⟩ := uses_step h hhygienic
  have hnew : ∀ u ∈ a.users, u ∉ s.authz.users → ¬ IsSystemName u ∧ (∀ t, ¬ s.authz.Uses t u) ∧
      a.users ≠ s.authz.users := by
    intro u hu hold
    have hne : a.users ≠ s.authz.users := fun he => hold (he ▸ hu)
    cases h with
    | call ctx op a heffect =>
      cases heffect with
      | addUser op tenantRid role hnew ht hop =>
        rcases List.mem_append.mp hu with hu | hu
        · exact absurd hu hold
        · rw [List.mem_singleton.mp hu]
          refine ⟨not_isSystemName_generateRid _ _, ?_, hne⟩
          rcases hop with ⟨req, rfl⟩ | ⟨idp, rfl⟩ <;> exact hhygienic
      | _ => exact absurd hu hold
    | _ => exact absurd hu hold
  intro u hu
  by_cases hold : u ∈ s.authz.users
  · obtain ⟨hsystem, hunused⟩ := hnamed.unnamed u hold
    refine ⟨hsystem, fun t ht => ?_⟩
    rcases huses t u ht with hused | hsys | ⟨-, rfl, hfree, -⟩
    · exact hunused t hused
    · exact hsystem hsys
    · exact hfree.2.1 hold
  · obtain ⟨hsystem, hunused, hne⟩ := hnew u hu hold
    refine ⟨hsystem, fun t ht => ?_⟩
    rcases huses t u ht with hused | hsys | ⟨-, -, -, hsame⟩
    · exact hunused t hused
    · exact hsystem hsys
    · exact hne hsame

theorem owned_step (h : Step cfg s e a) (hnamed : s.authz.Named) (hhygienic : Hygienic s e) :
    ∀ t t' name, a.Uses t name → a.Uses t' name → IsSystemName name ∨ t = t' := by
  obtain ⟨T, N, huses⟩ := uses_step h hhygienic
  intro t t' name ht ht'
  rcases huses t name ht with hused | hsys | ⟨rfl, rfl, hfree, -⟩
  · rcases huses t' name ht' with hused' | hsys | ⟨rfl, rfl, hfree, -⟩
    · exact hnamed.owned t t' name hused hused'
    · exact .inl hsys
    · exact .inr (hfree.2.2 t hused)
  · exact .inl hsys
  · rcases huses t' name ht' with hused' | hsys | ⟨rfl, -⟩
    · exact .inr (hfree.2.2 t' hused').symm
    · exact .inl hsys
    · exact .inr rfl

theorem custom_step (h : Step cfg s e a) (hnamed : s.authz.Named) (hhygienic : Hygienic s e) :
    ∀ r ∈ a.customRoles, r.isSystem = false → ¬ IsSystemName r.name := by
  cases h with
  | call ctx op a heffect =>
    cases heffect with
    | createRole req role hsystem ht hname hnew =>
      intro r hr hrsystem
      rcases List.mem_append.mp hr with hr | hr
      · exact hnamed.custom r hr hrsystem
      · rw [List.mem_singleton.mp hr, hname]
        exact hhygienic.1
    | updateRole req role fields hrole hsystem hname =>
      intro r hr hrsystem
      obtain ⟨r₀, hr₀, rfl⟩ := mem_setRow.mp hr
      by_cases hrid : r₀.rid = role.rid
      · obtain rfl := role_eq_of_rid hr₀ hrole hrid
        rw [if_pos rfl]
        have hset : (r₀.set fields ctx.now).name = fields.name.getD r₀.name := rfl
        rw [hset]
        cases hnew : fields.name with
        | none => exact hnamed.custom r₀ hr₀ hsystem
        | some n => exact (hhygienic r₀ hrole rfl hsystem n (by rw [← hname, hnew]; rfl)).1
      · rw [if_neg hrid] at hrsystem ⊢
        exact hnamed.custom r₀ hr₀ hrsystem
    | deleteRole role hrole hsystem =>
      intro r hr
      exact hnamed.custom r (List.mem_filter.mp hr).1
    | _ => exact hnamed.custom
  | restart ctx rows hrows =>
    intro r hr hrsystem
    rcases List.mem_append.mp hr with hr | hr
    · exact hnamed.custom r hr hrsystem
    · rw [(hrows r hr).system] at hrsystem
      cases hrsystem
  | _ => exact hnamed.custom

/-- Another membership of the user with the same role name has a system role. -/
theorem Authz.Named.shared (hnamed : s.authz.Named) {m m' : Membership} (hm : m ∈ s.authz.memberships)
    (hm' : m' ∈ s.authz.memberships) (hu : m'.userRid = m.userRid) (hrole : m'.role = m.role) (hkey : m'.key ≠ m.key) :
    IsSystemName m'.role := by
  rcases hnamed.owned m'.tenantRid m.tenantRid m'.role (uses_membership hm') (hrole ▸ uses_membership hm) with h | ht
  · exact h
  · exact absurd (by rw [Membership.key, Membership.key, hu, ht]) hkey

theorem grouped_step (h : Step cfg s e a) (hnamed : s.authz.Named) :
    ∀ m ∈ a.memberships, IsSystemName m.role ∨ (m.userRid, m.role) ∈ a.enforcer.groupings := by
  have hadded : ∀ (m : Membership) (gs : List Grouping), (IsSystemName m.role ∨ (m.userRid, m.role) ∈ gs) →
      (∀ g ∈ s.authz.enforcer.groupings, g ∈ gs) → ∀ m' ∈ s.authz.memberships ++ [m],
        IsSystemName m'.role ∨ (m'.userRid, m'.role) ∈ gs := by
    intro m gs hm hgs m' hm'
    rcases List.mem_append.mp hm' with hm' | hm'
    · exact (hnamed.grouped m' hm').imp_right (hgs _)
    · rw [List.mem_singleton.mp hm']
      exact hm
  have hremoved : ∀ m ∈ s.authz.memberships, ∀ m' ∈ s.authz.memberships, m'.key ≠ m.key →
      IsSystemName m'.role ∨ (m'.userRid, m'.role) ∈ (s.authz.enforcer.removeUserRole m.userRid m.role).groupings := by
    intro m hm m' hm' hkey
    rcases hnamed.grouped m' hm' with hsys | hg
    · exact .inl hsys
    · by_cases hpair : (m'.userRid, m'.role) = (m.userRid, m.role)
      · obtain ⟨hu, hrole⟩ := Prod.mk.inj hpair
        exact .inl (hnamed.shared hm hm' hu hrole hkey)
      · exact .inr (mem_removeUserRole.mpr ⟨hg, hpair⟩)
  cases h with
  | call ctx op a heffect =>
    cases heffect with
    | keep => exact hnamed.grouped
    | sync op hop m hm => exact fun m' hm' => (hnamed.grouped m' hm').imp_right fun hg => mem_syncUserRole.mpr (.inl hg)
    | addUser | addMember =>
      refine hadded _ _ (.inr ?_) fun g hg => mem_syncUserRole.mpr (.inl hg)
      exact mem_syncUserRole.mpr (.inr rfl)
    | addTenant => exact hadded _ _ (.inl (isSystemName_name .admin)) fun g hg => hg
    | provision => exact hadded _ _ (.inl (isSystemName_name .member)) fun g hg => mem_syncUserRole.mpr (.inl hg)
    | setRole op m role hm hop =>
      intro m' hm'
      obtain ⟨m₀, hm₀, rfl⟩ := List.mem_map.mp hm'
      by_cases hkey : m₀.key = m.key
      · rw [Membership.setRole, if_pos hkey]
        have hu : m₀.userRid = m.userRid := congrArg Prod.fst hkey
        exact .inr (mem_syncUserRole.mpr (.inr (by rw [hu])))
      · rw [Membership.setRole, if_neg hkey]
        exact (hremoved m hm m₀ hm₀ hkey).imp_right fun hg => mem_syncUserRole.mpr (.inl hg)
    | removeMember m hm hadmin =>
      intro m' hm'
      obtain ⟨hm', hkey⟩ := List.mem_filter.mp hm'
      exact hremoved m hm m' hm' (of_decide_eq_true hkey)
    | createRole | updateRole =>
      intro m hm
      rw [addCustomRolePolicies_groupings]
      exact hnamed.grouped m hm
    | deleteRole => exact hnamed.grouped
  | restart => exact fun m hm => .inr ((groupings_rebuilt _ _ _).mpr ⟨m, hm, rfl⟩)
  | failed => exact hnamed.grouped
  | reorder ts ms tenants memberships ht hm => exact fun m hm' => hnamed.grouped m (hm.mem_iff.mp hm')

/-- A user whose memberships and groupings are as before is served as before. -/
theorem Authz.Served.same {a' : Authz} {u : String} (h : a.Served u)
    (hms : ∀ m : Membership, m.userRid = u → (m ∈ a'.memberships ↔ m ∈ a.memberships))
    (hroles : a'.customRoles = a.customRoles)
    (hgs : ∀ role, (u, role) ∈ a.enforcer.groupings → (u, role) ∈ a'.enforcer.groupings) : a'.Served u := by
  rintro ⟨t, q, m, hm, hkey, hgrants⟩
  have hu : m.userRid = u := congrArg Prod.fst hkey
  have hgrants' : a.Grants t m.role q := by
    unfold Authz.Grants at hgrants ⊢
    rwa [hroles] at hgrants
  obtain ⟨m', hm', hu', hg⟩ := h ⟨t, q, m, (hms m hu).mp hm, hkey, hgrants'⟩
  exact ⟨m', (hms m' hu').mpr hm', hu', hgs _ hg⟩

/-- When nobody's memberships or groupings have changed, a custom role that grants more serves its users. -/
theorem served_of_grouped {u : String} (hnamed : s.authz.Named) (hms : a.memberships = s.authz.memberships)
    (hgs : a.enforcer.groupings = s.authz.enforcer.groupings)
    (hcustom : ∀ r ∈ a.customRoles, r.isSystem = false → ¬ IsSystemName r.name) : a.Served u := by
  rintro ⟨t, q, m, hm, hkey, hgrants⟩
  have hu : m.userRid = u := congrArg Prod.fst hkey
  rw [hms] at hm
  rw [hms, hgs]
  rcases hnamed.grouped m hm with hsys | hg
  · rcases hgrants with hgrants | ⟨r, hr, hrkey, hsystem, -⟩
    · exact hnamed.served u ⟨t, q, m, hm, hkey, .inl hgrants⟩
    · have hname : r.name = m.role := congrArg Prod.snd hrkey
      exact absurd (hname ▸ hsys) (hcustom r hr hsystem)
  · exact ⟨m, hm, hu, hu ▸ hg⟩

theorem mem_append_other {ms : List Membership} {m m' : Membership} (hne : m'.userRid ≠ m.userRid) :
    m' ∈ ms ++ [m] ↔ m' ∈ ms := by
  rw [List.mem_append, List.mem_singleton, or_iff_left]
  rintro rfl
  exact hne rfl

/-- A membership added with a grouping of its user serves that user, and everyone else is served as before. -/
theorem Authz.Served.added {a' : Authz} {u : String} {m m₁ : Membership} (h : a.Served u)
    (hms : a'.memberships = a.memberships ++ [m]) (hroles : a'.customRoles = a.customRoles)
    (hgs : a'.enforcer = a.enforcer.syncUserRole m.userRid m₁.role) (hm₁ : m₁ ∈ a'.memberships)
    (hmu : m₁.userRid = m.userRid) : a'.Served u := by
  by_cases hu : u = m.userRid
  · refine fun _ => ⟨m₁, hm₁, hmu.trans hu.symm, ?_⟩
    rw [hgs, hu]
    exact mem_syncUserRole.mpr (.inr rfl)
  · refine h.same (fun m' hm' => ?_) hroles fun role hg => ?_
    · rw [hms]
      exact mem_append_other (hm' ▸ hu)
    · rw [hgs]
      exact mem_syncUserRole.mpr (.inl hg)

theorem Authz.Served.of_setRole {a' : Authz} {u : String} {m : Membership} {role : String} (h : a.Served u)
    (hms : a'.memberships = a.memberships.map (Membership.setRole m.key role)) (hroles : a'.customRoles = a.customRoles)
    (hgs : a'.enforcer = (a.enforcer.removeUserRole m.userRid m.role).syncUserRole m.userRid role)
    (hm : m ∈ a.memberships) : a'.Served u := by
  by_cases hu : u = m.userRid
  · refine fun _ => ⟨m.setRole m.key role, hms ▸ List.mem_map_of_mem hm, ?_, ?_⟩
    · rw [Membership.setRole_userRid, hu]
    · rw [Membership.setRole, if_pos rfl, hu, hgs]
      exact mem_syncUserRole.mpr (.inr rfl)
  · refine h.same (fun m' hm' => ?_) hroles fun role' hg => ?_
    · have hne : m'.userRid ≠ m.userRid := hm' ▸ hu
      rw [hms]
      constructor
      · intro hmem
        obtain ⟨m₀, hm₀, rfl⟩ := List.mem_map.mp hmem
        rw [Membership.setRole_userRid] at hne
        rwa [Membership.setRole, if_neg fun hkey => hne (congrArg Prod.fst hkey)]
      · intro hmem
        exact List.mem_map.mpr ⟨m', hmem, if_neg fun hkey => hne (congrArg Prod.fst hkey)⟩
    · rw [hgs]
      refine mem_syncUserRole.mpr (.inl (mem_removeUserRole.mpr ⟨hg, fun hpair => hu ?_⟩))
      exact congrArg Prod.fst hpair

theorem served_step (h : Step cfg s e a) (hnamed : s.authz.Named) (hhygienic : Hygienic s e) (huniform : a.Uniform)
    (htenants : ∀ m ∈ a.memberships, m.tenantRid ∈ a.tenants) (husers : ∀ m ∈ a.memberships, m.userRid ∈ a.users)
    (u : String) : a.Served u := by
  have hcustom := custom_step h hnamed hhygienic
  have hlast : ∀ m : Membership, m ∈ s.authz.memberships ++ [m] := by simp
  cases h with
  | call ctx op a heffect =>
    cases heffect with
    | keep => exact hnamed.served u
    | sync => exact (hnamed.served u).same (fun m hm => Iff.rfl) rfl fun role hg => mem_syncUserRole.mpr (.inl hg)
    | addUser => exact (hnamed.served u).added rfl rfl rfl (hlast _) rfl
    | addMember => exact (hnamed.served u).added rfl rfl rfl (hlast _) rfl
    | provision idp userRid tenantRid m hmu ht hidp hnew hm =>
      exact (hnamed.served u).added rfl rfl rfl hm.mem.1 hm.mem.2
    | addTenant req hnew hmu =>
      rintro ⟨t, q, hwanted⟩
      -- what is granted in the new tenant is granted in an old one too
      obtain ⟨t₀, ht₀⟩ := List.exists_mem_of_ne_nil _ hnamed.tenants
      have htq : t ∈ s.authz.tenants ++ [generateRid "tenant" (ctx.uuids 0)] ∧ u ∈ s.authz.users := by
        obtain ⟨m, hm, hkey, -⟩ := hwanted
        obtain ⟨rfl, rfl⟩ := Prod.mk.inj hkey
        exact ⟨htenants m hm, husers m hm⟩
      obtain ⟨m, hm, hkey, hgrants⟩ := huniform u htq.2 t htq.1 t₀ (List.mem_append_left _ ht₀) q hwanted
      have hold : m ∈ s.authz.memberships := by
        rcases List.mem_append.mp hm with hm | hm
        · exact hm
        · rw [List.mem_singleton.mp hm] at hkey
          have ht : generateRid "tenant" (ctx.uuids 0) = t₀ := congrArg Prod.snd hkey
          exact absurd (ht ▸ ht₀) hnew
      obtain ⟨m', hm', hserved⟩ := hnamed.served u ⟨t₀, q, m, hold, hkey, hgrants⟩
      exact ⟨m', List.mem_append_left _ hm', hserved⟩
    | setRole op m role hm hop => exact (hnamed.served u).of_setRole rfl rfl rfl hm
    | removeMember m hm hadmin =>
      by_cases hu : u = m.userRid
      · -- without a membership in this tenant the user is granted nothing
        rintro ⟨t, q, hwanted⟩
        exfalso
        have hother := hwanted
        obtain ⟨m', hm', hkey, -⟩ := hother
        obtain ⟨hmu, hmt⟩ := Prod.mk.inj hkey
        have htenant : m.tenantRid ∈ s.authz.tenants := s.db.membershipTenants m hm
        obtain ⟨m₀, hm₀, hkey₀, -⟩ := huniform u (hmu ▸ husers m' hm') t (hmt ▸ htenants m' hm') m.tenantRid htenant q
          hwanted
        rw [hu] at hkey₀
        exact of_decide_eq_true (List.mem_filter.mp hm₀).2 hkey₀
      · refine (hnamed.served u).same (fun m' hm' => ?_) rfl fun role hg => ?_
        · rw [List.mem_filter, and_iff_left]
          exact decide_eq_true fun hkey => hu (hm' ▸ congrArg Prod.fst hkey)
        · exact mem_removeUserRole.mpr ⟨hg, fun hpair => hu (congrArg Prod.fst hpair)⟩
    | createRole => exact served_of_grouped hnamed rfl (addCustomRolePolicies_groupings _) hcustom
    | updateRole => exact served_of_grouped hnamed rfl (addCustomRolePolicies_groupings _) hcustom
    | deleteRole => exact served_of_grouped hnamed rfl rfl hcustom
  | restart =>
    rintro ⟨t, q, m, hm, hkey, -⟩
    have hu : m.userRid = u := congrArg Prod.fst hkey
    exact ⟨m, hm, hu, (groupings_rebuilt _ _ _).mpr ⟨m, hm, by rw [hu]⟩⟩
  | failed => exact hnamed.served u
  | reorder ts ms tenants memberships ht hm => exact (hnamed.served u).same (fun m _ => hm.mem_iff) rfl fun role hg => hg

theorem tenants_step (h : Step cfg s e a) (hnamed : s.authz.Named) : a.tenants ≠ [] := by
  have htenants := hnamed.tenants
  cases h with
  | call ctx op a heffect => cases heffect <;> first | exact htenants | simp
  | restart => exact htenants
  | failed => exact htenants
  | reorder ts ms tenants memberships ht hm =>
    intro hempty
    have hnil : tenants = [] := hempty
    rw [hnil] at ht
    exact htenants ht.nil_eq.symm

theorem Named.step (h : Step cfg s e a) (hnamed : s.authz.Named) (hhygienic : Hygienic s e) (huniform : a.Uniform)
    (htenants : ∀ m ∈ a.memberships, m.tenantRid ∈ a.tenants) (husers : ∀ m ∈ a.memberships, m.userRid ∈ a.users) :
    a.Named where
  policies := PoliciesMatch.step h hnamed.policies fun _ hrole hsystem _ => hnamed.sole hrole hsystem
  held := GroupingsHeld.step h hnamed.held
  tenants := tenants_step h hnamed
  unnamed := unnamed_step h hnamed hhygienic
  owned := owned_step h hnamed hhygienic
  custom := custom_step h hnamed hhygienic
  grouped := grouped_step h hnamed
  served := served_step h hnamed hhygienic huniform htenants husers

end Steps

/-! ## Runs -/

section Runs
variable {cfg : Config} {ctx : Ctx}

theorem named_seeded (hboot : (booted cfg ctx (Server.empty cfg)).1 = .ok ()) :
    (Server.seeded cfg ctx).authz.Named := by
  have hpolicies := policiesMatch_seeded hboot
  obtain ⟨rows, hrows, hauthz⟩ := authz_seeded hboot
  have huses : ∀ t name, (Server.seeded cfg ctx).authz.Uses t name → IsSystemName name := by
    rw [hauthz]
    rintro t name (⟨m, hm, -, rfl⟩ | ⟨r, hr, -, rfl⟩)
    · rw [List.mem_singleton.mp hm]
      exact isSystemName_name .admin
    · obtain ⟨role, hname, -⟩ := (hrows r hr).role
      exact ⟨role, hname.symm⟩
  have hgrouped : ∀ m ∈ [(⟨generateRid "user" (ctx.uuids 1), generateRid "tenant" (ctx.uuids 0), "admin", true, ctx.now⟩ :
      Membership)], (m.userRid, m.role) ∈ ((PermissionEnforcer.create cfg.rbacEnabled).seedPolicies.syncUserRole
        (generateRid "user" (ctx.uuids 1)) "admin").groupings := by simp
  rw [hauthz] at hpolicies huses ⊢
  refine ⟨hpolicies, ?_, by simp, ?_, fun t t' name h _ => .inl (huses t name h), ?_, fun m hm => .inr (hgrouped m hm), ?_⟩
  · intro g hg
    simpa [create] using hg
  · intro u hu
    rw [List.mem_singleton.mp hu]
    have hsystem := not_isSystemName_generateRid "user" (ctx.uuids 1)
    exact ⟨hsystem, fun t ht => hsystem (huses t _ ht)⟩
  · intro r hr hsystem
    rw [(hrows r hr).system] at hsystem
    cases hsystem
  · rintro u ⟨t, q, m, hm, hkey, -⟩
    have hu : m.userRid = u := congrArg Prod.fst hkey
    exact ⟨m, hm, hu, hu ▸ hgrouped m hm⟩

/-- Runs along which users are granted the same in every tenant. -/
theorem named_run {es : List Event} (hboot : (booted cfg ctx (Server.empty cfg)).1 = .ok ())
    (hfresh : StepsMeet (Server.next cfg) (fun s e => e.Fresh cfg s) (Server.seeded cfg ctx) es)
    (hhygienic : StepsMeet (Server.next cfg) Hygienic (Server.seeded cfg ctx) es)
    (huniform : StepsMeet (Server.next cfg) (fun s e => (s.next cfg e).authz.Uniform) (Server.seeded cfg ctx) es) :
    (runFrom (Server.next cfg) (Server.seeded cfg ctx) es).authz.Named ∧
      (runFrom (Server.next cfg) (Server.seeded cfg ctx) es).authz.enforcer.rbacEnabled = cfg.rbacEnabled := by
  have hinv := steps_inv
    (J := fun s => s.db.users ≠ [] ∧ s.authz.Named ∧ s.authz.enforcer.rbacEnabled = cfg.rbacEnabled)
    (fun s e hJ hP => ?_) ⟨users_seeded hboot, named_seeded hboot, enabled_seeded hboot⟩
    ((hfresh.and hhygienic).and huniform)
  · exact hinv.2
  · obtain ⟨hu, hnamed, henabled⟩ := hJ
    obtain ⟨⟨hf, hh⟩, huni⟩ := hP
    have hstep := step_authz hu hf
    exact ⟨users_next hu hf, Named.step hstep hnamed hh huni (s.next cfg e).db.membershipTenants
      (s.next cfg e).db.membershipUsers, hstep.enabled henabled⟩

end Runs

/-- Checks follow the memberships all along a run if and only if what users are granted is the same in every
tenant all along. -/
theorem decisions_follow_iff (rm : RoleManager) {cfg : Config} {ctx : Ctx} {es : List Event}
    (hrbac : cfg.rbacEnabled = true) (hboot : (booted cfg ctx (Server.empty cfg)).1 = .ok ())
    (hfresh : StepsMeet (Server.next cfg) (fun s e => e.Fresh cfg s) (Server.seeded cfg ctx) es)
    (hhygienic : StepsMeet (Server.next cfg) Hygienic (Server.seeded cfg ctx) es) :
    (∀ fs, fs <+: es → Follows rm (runFrom (Server.next cfg) (Server.seeded cfg ctx) fs)) ↔
      ∀ fs, fs <+: es → (runFrom (Server.next cfg) (Server.seeded cfg ctx) fs).authz.Uniform := by
  constructor
  · exact fun h fs hfs => uniform_of_follows (h fs hfs)
  · intro huniform fs hfs
    have hsteps : StepsMeet (Server.next cfg) (fun s e => (s.next cfg e).authz.Uniform) (Server.seeded cfg ctx) es :=
      .of_prefixes (J := fun s : Server => s.authz.Uniform) huniform
    obtain ⟨hnamed, henabled⟩ := named_run hboot (hfresh.on_initial hfs) (hhygienic.on_initial hfs) (hsteps.on_initial hfs)
    exact hnamed.follows (henabled.trans hrbac) (huniform fs hfs)

/-- A user joins the only tenant. -/
def joins : Event :=
  .call (.plain "ri.user.i" "ri.tenant." 1) (.createUser
    { email := "v@example.com", displayName := ⟨"V", fits_v⟩, password := "secret123", role := .viewer })

theorem decisions_follow_iff_joins :
    Follows defaultRoleManager (runFrom (Server.next .plain) (Server.seeded .plain (.plain "" "" 0)) [joins]) := by
  have hroles : ∀ r ∈ (Server.seeded .plain (.plain "" "" 0)).authz.customRoles, r.name ≠ "ri.user.n" := by
    decide +kernel
  have hmembers : ∀ m ∈ (Server.seeded .plain (.plain "" "" 0)).authz.memberships, m.role ≠ "ri.user.n" := by
    decide +kernel
  have hhygienic : Hygienic (Server.seeded .plain (.plain "" "" 0)) joins := by
    rintro t (⟨m, hm, -, hname⟩ | ⟨r, hr, -, hname⟩)
    · exact hmembers m hm hname
    · exact hroles r hr hname
  have hsteps : StepsMeet (Server.next .plain) Hygienic (Server.seeded .plain (.plain "" "" 0)) [joins] :=
    ⟨hhygienic, trivial⟩
  refine (decisions_follow_iff defaultRoleManager rfl (by decide +kernel) (by decide +kernel) hsteps).mpr ?_ [joins]
    (List.prefix_refl _)
  intro fs hfs u hu t ht t' ht' q
  have htenants : ∀ n ≤ 1, (runFrom (Server.next .plain) (Server.seeded .plain (.plain "" "" 0))
      ([joins].take n)).authz.tenants = ["ri.tenant."] := by decide +kernel
  have htake : [joins].take fs.length = fs := (List.prefix_iff_eq_take.mp hfs).symm
  have hlength : fs.length ≤ 1 := hfs.length_le
  have hone := htenants fs.length hlength
  rw [htake] at hone
  rw [hone] at ht ht'
  rw [List.mem_singleton.mp ht, List.mem_singleton.mp ht']
  exact id

/-- A viewer of one tenant becomes an admin of another. -/
def adminElsewhere : Server :=
  runFrom (Server.next .plain) (Server.seeded .plain (.plain "" "" 0))
    [.call (.plain "ri.user.i" "ri.tenant." 1) (.createTenant { displayName := ⟨"Branch", fits_branch⟩ }),
      .call (.plain "ri.user.i" "ri.tenant." 2) (.createUser
        { email := "v@example.com", displayName := ⟨"V", fits_v⟩, password := "secret123", role := .viewer }),
      .call (.plain "ri.user.i" "ri.tenant.n" 3) (.addMember "ri.tenant.n" { userRid := "ri.user.nn", role := .admin })]

/-- In the tenant whose viewer he is he may create users. -/
theorem decision_ignores_tenant : Reachable .plain adminElsewhere ∧ ¬ Follows defaultRoleManager adminElsewhere := by
  have hstart : (booted .plain (.plain "" "" 0) (Server.empty .plain)).1 = .ok () := by decide +kernel
  have hreach : Reachable .plain adminElsewhere := by
    unfold adminElsewhere
    exact ⟨_, _, hstart, rfl⟩
  refine ⟨hreach, fun h => ?_⟩
  have hcheck : adminElsewhere.enforcer.checkPermission defaultRoleManager "ri.user.nn" ⟨"user", "create", none⟩ = true := by
    decide +kernel
  have hwanted : ¬ adminElsewhere.authz.Wanted "ri.tenant." "ri.user.nn" ⟨"user", "create", none⟩ := by decide +kernel
  exact hwanted ((h "ri.user.nn" (by decide +kernel) "ri.tenant." (by decide +kernel) _).mp hcheck)

end Lingshu.Setting
