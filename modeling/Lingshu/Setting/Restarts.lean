import Lingshu.Setting.Rules

/-! # What a restart changes

A start builds the rules from the tables. In memory are the same rules (`InSync`) as long as no call takes a
grouping away that another membership still needs, adds a membership without its grouping, or takes rules away
that another role of the same name still needs (`Steady`). -/
namespace Lingshu.Setting
open Interaction PermissionEnforcer
set_option autoImplicit false

namespace Authz

def GroupingsMatch (a : Authz) : Prop :=
  ∀ g, g ∈ a.enforcer.groupings ↔ ∃ m ∈ a.memberships, g = (m.userRid, m.role)

/-- The rules in memory are those that a start would build. -/
structure InSync (cfg : Config) (a : Authz) : Prop where
  enabled : a.enforcer.rbacEnabled = cfg.rbacEnabled
  policies : a.PoliciesMatch
  groupings : a.GroupingsMatch

/-- No other membership of the user has the role. -/
def Alone (a : Authz) (m : Membership) : Prop :=
  ∀ m' ∈ a.memberships, m'.userRid = m.userRid → m'.role = m.role → m' = m

def Holds (a : Authz) (userRid role : String) : Prop := ∃ m ∈ a.memberships, m.userRid = userRid ∧ m.role = role

instance (a : Authz) (m : Membership) : Decidable (a.Alone m) := by
  unfold Alone
  infer_instance

instance (a : Authz) (userRid role : String) : Decidable (a.Holds userRid role) := by
  unfold Holds
  infer_instance

end Authz

/-- A restart would change no answer of `check_permission`. -/
def RestartInvisible (cfg : Config) (rm : RoleManager) (s : Server) : Prop :=
  ∀ ctx s', booted cfg ctx s = (.ok (), s') →
    ∀ u q, s'.enforcer.checkPermission rm u q = s.enforcer.checkPermission rm u q

theorem RestartInvisible.booted {cfg : Config} {rm : RoleManager} {s : Server} (h : RestartInvisible cfg rm s)
    {ctx : Ctx} (hboot : (booted cfg ctx s).1 = .ok ()) (u : String) (q : Query) :
    (Setting.booted cfg ctx s).2.enforcer.checkPermission rm u q = s.enforcer.checkPermission rm u q :=
  h ctx _ (Prod.ext hboot rfl) u q

/-- What a step must meet for the rules to stay in sync with the tables. -/
def Steady (s : Server) : Event → Prop
  | .call ctx (.createTenant _) => ctx.userId ∈ s.authz.users → s.authz.Holds ctx.userId "admin"
  | .call _ (.updateMemberRole tenantRid userRid role) =>
    ∀ m ∈ s.authz.memberships, m.key = (userRid, tenantRid) → m.role = role.name ∨ s.authz.Alone m
  | .call ctx (.assignRoleToUser userRid role) =>
    ∀ m ∈ s.authz.memberships, m.key = (userRid, ctx.tenantId) → m.role = role ∨ s.authz.Alone m
  | .call _ (.removeMember tenantRid userRid) =>
    ∀ m ∈ s.authz.memberships, m.key = (userRid, tenantRid) →
      (m.role = "admin" → 1 < (s.db.listByTenant tenantRid).countP fun m => m.role = "admin") → s.authz.Alone m
  | .call ctx (.ssoCallback idp) =>
    ∀ userRid tenantRid m, Provisions s.db idp userRid tenantRid →
      (userRid, tenantRid) ∉ s.authz.memberships.map Membership.key →
      Chosen (s.authz.memberships ++ [⟨userRid, tenantRid, "member", false, ctx.now⟩]) userRid m →
      m.role = "member" ∨ s.authz.Holds userRid "member"
  | .call _ (.updateRole rid _) | .call _ (.deleteRole rid) =>
    ∀ role ∈ s.authz.customRoles, role.rid = rid → role.isSystem = false → s.authz.Sole role
  | _ => True

section Steps
variable {cfg : Config} {s : Server} {e : Event} {a : Authz}

/-- A step that takes no other membership's grouping away. -/
theorem groupingsMatch_setRole {m : Membership} {role : String} (h : s.authz.GroupingsMatch)
    (hm : m ∈ s.authz.memberships) (halone : m.role = role ∨ s.authz.Alone m) (g : Grouping) :
    g ∈ ((s.authz.enforcer.removeUserRole m.userRid m.role).syncUserRole m.userRid role).groupings ↔
      ∃ m' ∈ s.authz.memberships.map (Membership.setRole m.key role), g = (m'.userRid, m'.role) := by
  have hself : m.setRole m.key role = { m with role := role } := if_pos rfl
  have hother : ∀ m' ∈ s.authz.memberships, m' ≠ m → m'.setRole m.key role = m' := fun m' hm' hne =>
    if_neg fun hkey => hne (List.inj_on_of_nodup_map s.db.membershipKeys hm' hm hkey)
  rw [mem_syncUserRole, mem_removeUserRole, h g]
  constructor
  · rintro (⟨⟨m', hm', rfl⟩, hne⟩ | rfl)
    · have hdiff : m' ≠ m := fun he => hne (by rw [he])
      exact ⟨m', List.mem_map.mpr ⟨m', hm', hother m' hm' hdiff⟩, rfl⟩
    · exact ⟨_, List.mem_map_of_mem hm, by rw [hself]⟩
  · rintro ⟨_, hmem, rfl⟩
    obtain ⟨m', hm', rfl⟩ := List.mem_map.mp hmem
    by_cases he : m' = m
    · rw [he, hself]
      exact .inr rfl
    · rw [hother m' hm' he]
      by_cases hg : (m'.userRid, m'.role) = (m.userRid, m.role)
      · obtain ⟨hu, hrole⟩ := Prod.mk.inj hg
        rcases halone with hsame | halone
        · exact .inr (by rw [hg, hsame])
        · exact absurd (halone m' hm' hu hrole) he
      · exact .inl ⟨⟨m', hm', rfl⟩, hg⟩

theorem groupingsMatch_removeMember {m : Membership} (h : s.authz.GroupingsMatch) (hm : m ∈ s.authz.memberships)
    (halone : s.authz.Alone m) (g : Grouping) :
    g ∈ (s.authz.enforcer.removeUserRole m.userRid m.role).groupings ↔
      ∃ m' ∈ s.authz.memberships.filter fun m' => m'.key ≠ m.key, g = (m'.userRid, m'.role) := by
  rw [mem_removeUserRole, h g]
  constructor
  · rintro ⟨⟨m', hm', rfl⟩, hne⟩
    have hkey : m'.key ≠ m.key := fun hkey =>
      hne (by rw [List.inj_on_of_nodup_map s.db.membershipKeys hm' hm hkey])
    exact ⟨m', List.mem_filter.mpr ⟨hm', decide_eq_true hkey⟩, rfl⟩
  · rintro ⟨m', hm', rfl⟩
    obtain ⟨hm', hkey⟩ := List.mem_filter.mp hm'
    refine ⟨⟨m', hm', rfl⟩, fun hg => of_decide_eq_true hkey ?_⟩
    obtain ⟨hu, hrole⟩ := Prod.mk.inj hg
    rw [halone m' hm' hu hrole]

/-- A new membership whose grouping is there or comes with it. -/
theorem groupingsMatch_append {ms : List Membership} {m : Membership} {gs gs' : List Grouping}
    (h : ∀ g, g ∈ gs ↔ ∃ m ∈ ms, g = (m.userRid, m.role)) (hsub : ∀ g ∈ gs, g ∈ gs')
    (hnew : (m.userRid, m.role) ∈ gs') (hall : ∀ g ∈ gs', g ∈ gs ∨ ∃ m' ∈ ms ++ [m], g = (m'.userRid, m'.role))
    (g : Grouping) : g ∈ gs' ↔ ∃ m' ∈ ms ++ [m], g = (m'.userRid, m'.role) := by
  constructor
  · intro hg
    rcases hall g hg with hg | hg
    · obtain ⟨m', hm', rfl⟩ := (h g).mp hg
      exact ⟨m', List.mem_append_left _ hm', rfl⟩
    · exact hg
  · rintro ⟨m', hm', rfl⟩
    rcases List.mem_append.mp hm' with hm' | hm'
    · exact hsub _ ((h _).mpr ⟨m', hm', rfl⟩)
    · rw [List.mem_singleton.mp hm']
      exact hnew

theorem GroupingsMatch.step (h : Step cfg s e a) (hmatch : s.authz.GroupingsMatch) (hsteady : Steady s e) :
    a.GroupingsMatch := by
  have hlast : ∀ m : Membership, m ∈ s.authz.memberships ++ [m] := by simp
  cases h with
  | call ctx op a heffect =>
    cases heffect with
    | keep => exact hmatch
    | sync op hop m hm =>
      intro g
      rw [mem_syncUserRole, hmatch g]
      constructor
      · rintro (hg | rfl)
        · exact hg
        · exact ⟨m, hm, rfl⟩
      · exact .inl
    | addUser | addMember =>
      refine groupingsMatch_append hmatch (fun g hg => mem_syncUserRole.mpr (.inl hg)) ?_ ?_
      · exact mem_syncUserRole.mpr (.inr rfl)
      · intro g hg
        rcases mem_syncUserRole.mp hg with hg | rfl
        · exact .inl hg
        · exact .inr ⟨_, hlast _, rfl⟩
    | addTenant req hnew hu =>
      obtain ⟨m, hm, hmu, hrole⟩ := hsteady hu
      refine groupingsMatch_append hmatch (fun g hg => hg) ?_ (fun g hg => .inl hg)
      exact (hmatch _).mpr ⟨m, hm, by rw [hmu, hrole]⟩
    | setRole op m role hm hop =>
      refine groupingsMatch_setRole hmatch hm ?_
      rcases hop with ⟨r, rfl, rfl⟩ | ⟨rfl, ht⟩
      · exact hsteady m hm rfl
      · exact hsteady m hm (by rw [← ht]; rfl)
    | removeMember m hm hadmin => exact groupingsMatch_removeMember hmatch hm (hsteady m hm rfl hadmin)
    | createRole =>
      intro g
      rw [addCustomRolePolicies_groupings]
      exact hmatch g
    | updateRole =>
      intro g
      rw [addCustomRolePolicies_groupings, removeRolePolicies_groupings]
      exact hmatch g
    | deleteRole => exact hmatch
    | provision idp userRid tenantRid m hu ht hidp hnew hm =>
      refine groupingsMatch_append hmatch (fun g hg => mem_syncUserRole.mpr (.inl hg)) ?_ ?_
      · rw [mem_syncUserRole]
        rcases hsteady userRid tenantRid m hidp hnew hm with hrole | ⟨m', hm', hmu, hrole⟩
        · exact .inr (by rw [hrole])
        · exact .inl ((hmatch _).mpr ⟨m', hm', by rw [hmu, hrole]⟩)
      · intro g hg
        rcases mem_syncUserRole.mp hg with hg | rfl
        · exact .inl hg
        · exact .inr ⟨m, hm.mem.1, by rw [hm.mem.2]⟩
  | restart ctx rows hrows => exact groupings_rebuilt _ _
  | failed => exact hmatch
  | reorder ts ms tenants memberships ht hm =>
    intro g
    simp only [hm.mem_iff]
    exact hmatch g

theorem sole_of_steady (hsteady : Steady s e) {role : CustomRole} (hrole : role ∈ s.authz.customRoles)
    (hsystem : role.isSystem = false) (hrewrites : e.Rewrites role.rid) : s.authz.Sole role := by
  unfold Event.Rewrites at hrewrites
  split at hrewrites
  · exact hsteady role hrole hrewrites.symm hsystem
  · exact hsteady role hrole hrewrites.symm hsystem
  · exact hrewrites.elim

theorem InSync.step (h : Step cfg s e a) (hsync : s.authz.InSync cfg) (hsteady : Steady s e) : a.InSync cfg where
  enabled := h.enabled hsync.enabled
  policies := PoliciesMatch.step h hsync.policies fun _ => sole_of_steady hsteady
  groupings := GroupingsMatch.step h hsync.groupings hsteady

/-- What a start builds from tables that the rules are in sync with are the rules. -/
theorem restartInvisible_of_inSync (rm : RoleManager) (hu : s.db.users ≠ []) (h : s.authz.InSync cfg) :
    RestartInvisible cfg rm s := by
  intro ctx s' hboot u q
  obtain ⟨rows, hrows, hauthz⟩ := authz_booted hu hboot
  have henforcer : s'.enforcer = _ := congrArg Authz.enforcer hauthz
  rw [henforcer]
  refine checkPermission_congr rm ?_ ?_ ?_ u q
  · rw [rebuilt, syncCustomRoles_rbacEnabled, syncMemberships_rbacEnabled, seedPolicies_rbacEnabled]
    exact h.enabled.symm
  · intro p
    rw [policies_rebuilt _ _ _ hrows]
    exact (h.policies p).symm
  · intro g
    rw [groupings_rebuilt]
    exact (h.groupings g).symm

theorem inSync_seeded {ctx : Ctx} (hboot : (booted cfg ctx (Server.empty cfg)).1 = .ok ()) :
    (Server.seeded cfg ctx).authz.InSync cfg := by
  refine ⟨enabled_seeded hboot, policiesMatch_seeded hboot, ?_⟩
  obtain ⟨rows, hrows, hauthz⟩ := authz_seeded hboot
  rw [hauthz]
  intro g
  simp [create]

end Steps

/-- In every state of a run of steady steps a restart would change no decision. -/
theorem restart_invisible (rm : RoleManager) {cfg : Config} {ctx : Ctx} {es : List Event}
    (hboot : (booted cfg ctx (Server.empty cfg)).1 = .ok ())
    (hfresh : StepsMeet (Server.next cfg) (fun s e => e.Fresh cfg s) (Server.seeded cfg ctx) es)
    (hsteady : StepsMeet (Server.next cfg) Steady (Server.seeded cfg ctx) es) :
    ∀ fs, fs <+: es → RestartInvisible cfg rm (runFrom (Server.next cfg) (Server.seeded cfg ctx) fs) := by
  intro fs hfs
  have hsteps := (hfresh.and hsteady).on_initial hfs
  have hinv := steps_inv (J := fun s => s.db.users ≠ [] ∧ s.authz.InSync cfg)
    (fun s e hJ hP => ⟨users_next hJ.1 hP.1, InSync.step (step_authz hJ.1 hP.1) hJ.2 hP.2⟩)
    ⟨users_seeded hboot, inSync_seeded hboot⟩ hsteps
  exact restartInvisible_of_inSync rm hinv.1 hinv.2

/-- A member is added and removed. -/
def memberRemovedRun : List Event :=
  [.call (.plain "ri.user.i" "ri.tenant." 1) (.createTenant { displayName := ⟨"Branch", fits_branch⟩ }),
    .call (.plain "ri.user.i" "ri.tenant." 2) (.createUser
      { email := "v@example.com", displayName := ⟨"V", fits_v⟩, password := "secret123" }),
    .call (.plain "ri.user.i" "ri.tenant." 3) (.removeMember "ri.tenant." "ri.user.nn")]

theorem restart_invisible_memberRemoved :
    RestartInvisible .plain defaultRoleManager
      (runFrom (Server.next .plain) (Server.seeded .plain (.plain "" "" 0)) memberRemovedRun) := by
  have hcreate : (Server.seeded .plain (.plain "" "" 0)).authz.Holds "ri.user.i" "admin" := by decide +kernel
  have hremove : ∀ m ∈ (runFrom (Server.next .plain) (Server.seeded .plain (.plain "" "" 0))
      (memberRemovedRun.take 2)).authz.memberships, m.key = ("ri.user.nn", "ri.tenant.") →
      (runFrom (Server.next .plain) (Server.seeded .plain (.plain "" "" 0)) (memberRemovedRun.take 2)).authz.Alone m := by
    decide +kernel
  have hsteps : StepsMeet (Server.next .plain) Steady (Server.seeded .plain (.plain "" "" 0)) memberRemovedRun :=
    ⟨fun _ => hcreate, trivial, fun m hm hkey _ => hremove m hm hkey, trivial⟩
  exact restart_invisible defaultRoleManager (by decide +kernel) (by decide +kernel) hsteps memberRemovedRun
    (List.prefix_refl _)

/-- A member of two tenants becomes a viewer in one of them. -/
def sharedRoleRun : List Event :=
  [.call (.plain "ri.user.i" "ri.tenant." 1) (.createTenant { displayName := ⟨"Branch", fits_branch⟩ }),
    .call (.plain "ri.user.i" "ri.tenant." 2) (.createUser
      { email := "v@example.com", displayName := ⟨"V", fits_v⟩, password := "secret123" }),
    .call (.plain "ri.user.i" "ri.tenant." 3) (.addMember "ri.tenant.n" { userRid := "ri.user.nn" }),
    .call (.plain "ri.user.i" "ri.tenant.n" 4) (.updateMemberRole "ri.tenant.n" "ri.user.nn" .viewer)]

def sharedRole : Server := runFrom (Server.next .plain) (Server.seeded .plain (.plain "" "" 0)) sharedRoleRun

/-- The user is still a member of the other tenant, which a restart finds out. -/
theorem restart_visible : Reachable .plain sharedRole ∧ ¬ RestartInvisible .plain defaultRoleManager sharedRole := by
  have hstart : (booted .plain (.plain "" "" 0) (Server.empty .plain)).1 = .ok () := by decide +kernel
  have hreach : Reachable .plain sharedRole := by
    unfold sharedRole
    exact ⟨_, sharedRoleRun, hstart, rfl⟩
  refine ⟨hreach, fun h => ?_⟩
  have hboot : (booted .plain (.plain "" "" 5) sharedRole).1 = .ok () := by decide +kernel
  have hdiff : (booted .plain (.plain "" "" 5) sharedRole).2.enforcer.checkPermission defaultRoleManager "ri.user.nn"
      ⟨"action", "execute", none⟩ ≠ sharedRole.enforcer.checkPermission defaultRoleManager "ri.user.nn"
      ⟨"action", "execute", none⟩ := by decide +kernel
  exact hdiff (h.booted hboot "ri.user.nn" ⟨"action", "execute", none⟩)

end Lingshu.Setting
