import Lingshu.Setting.Effects

/-! # What a start does

A start leaves users, tenants and memberships alone, adds system roles to the table of roles, and builds the
rules from the tables. The first one adds a tenant with its admin. -/
namespace Lingshu.Setting
open Interaction Proc
set_option autoImplicit false

/-- The row of a system role. -/
structure CustomRole.SystemRow (tenants : List String) (r : CustomRole) : Prop where
  system : r.isSystem = true
  tenant : r.tenantId ∈ tenants
  role : ∃ role : SystemRole, r.name = role.name ∧ r.permissions = role.permissions

/-- The rules that a start builds. -/
def rebuilt (rbacEnabled : Bool) (memberships : List Membership) (customRoles : List CustomRole) :
    PermissionEnforcer :=
  syncCustomRoles customRoles (syncMemberships memberships (PermissionEnforcer.create rbacEnabled).seedPolicies)

section Seed
variable {cfg : Config} {ctx : Ctx} {s : Server}

/-- System roles have been added, and nothing else that authorization depends on has changed. -/
def Seeded (tenants : List String) (a a' : Authz) : Prop :=
  ∃ rows : List CustomRole, (∀ r ∈ rows, r.SystemRow tenants) ∧ a' = { a with customRoles := a.customRoles ++ rows }

theorem Seeded.refl (tenants : List String) (a : Authz) : Seeded tenants a a := ⟨[], by simp, by simp⟩

theorem Seeded.trans {tenants : List String} {a b c : Authz} (h : Seeded tenants a b) (h' : Seeded tenants b c) :
    Seeded tenants a c := by
  obtain ⟨rows, hrows, rfl⟩ := h
  obtain ⟨rows', hrows', rfl⟩ := h'
  refine ⟨rows ++ rows', ?_, by simp⟩
  intro r hr
  rcases List.mem_append.mp hr with hr | hr
  · exact hrows r hr
  · exact hrows' r hr

theorem ensures_seedSystemRole (tenants : List String) (n : ℕ) {seeded : String × SystemRole}
    (ht : seeded.1 ∈ tenants) :
    (seedSystemRole ctx n seeded).Ensures s (fun _ s' => Seeded tenants s.authz s'.authz) fun _ _ => True := by
  obtain ⟨tenantRid, role⟩ := seeded
  unfold seedSystemRole
  simp only [ensures_bind, ensures_query]
  split
  · simp only [ensures_bind, ensures_flush, ensures_pure, implies_true, and_true]
    intro db hdb
    obtain ⟨_, _, husers, htenants, hmemberships, _, hroles⟩ := Database.insertRole_ok hdb
    refine ⟨_, ?_, by simp [Server.authz, husers, htenants, hmemberships, hroles]; rfl⟩
    simp only [List.mem_singleton, forall_eq]
    exact ⟨rfl, ht, role, rfl, rfl⟩
  · exact Seeded.refl tenants s.authz

theorem ensures_seedLoop (tenants : List String) (l : List (String × SystemRole)) (hl : ∀ p ∈ l, p.1 ∈ tenants) (n : ℕ)
    (s : Server) :
    (l.foldlM (seedSystemRole ctx) n).Ensures s (fun _ s' => Seeded tenants s.authz s'.authz) fun _ _ => True := by
  induction l generalizing n s with
  | nil => exact Seeded.refl tenants s.authz
  | cons p l ih =>
    rw [List.foldlM_cons, ensures_bind]
    refine (ensures_seedSystemRole tenants n (hl p (List.mem_cons_self ..))).mono ?_ fun _ _ h => h
    intro n' s' hs'
    refine (ih (fun q hq => hl q (List.mem_cons_of_mem _ hq)) n' s').mono ?_ fun _ _ h => h
    exact fun _ _ h => hs'.trans h

theorem ensures_seedSystemRoles (n : ℕ) (tenants : List String) :
    (seedSystemRoles ctx n tenants).Ensures s (fun _ s' => Seeded tenants s.authz s'.authz) fun _ _ => True := by
  unfold seedSystemRoles
  simp only [ensures_bind, ensures_pure]
  refine ensures_seedLoop tenants _ ?_ n s
  intro p hp
  obtain ⟨t, ht, hp⟩ := List.mem_flatMap.mp hp
  obtain ⟨r, _, rfl⟩ := List.mem_map.mp hp
  exact ht

/-- A start on tables that have users. -/
theorem ensures_runSeed (hu : s.db.users ≠ []) :
    (runSeed cfg ctx).Ensures { s with enforcer := .create cfg.rbacEnabled }
      (fun _ s' => ∃ rows : List CustomRole, (∀ r ∈ rows, r.SystemRow s.authz.tenants) ∧
        s'.authz = { s.authz with
          customRoles := s.authz.customRoles ++ rows
          enforcer := rebuilt cfg.rbacEnabled s.authz.memberships (s.authz.customRoles ++ rows) })
      fun _ _ => True := by
  unfold runSeed
  simp only [ensures_bind, ensures_query, ensures_enforce, if_neg hu]
  refine (ensures_seedSystemRoles 0 (s.db.tenants.map Tenant.rid)).mono ?_ fun _ _ h => h
  rintro _ s' ⟨rows, hrows, hauthz⟩
  refine ⟨rows, hrows, ?_⟩
  obtain ⟨husers, htenants, hmemberships, hroles, henforcer⟩ := Authz.mk.inj hauthz
  simp only [Server.authz, Authz.mk.injEq]
  refine ⟨husers, htenants, hmemberships, hroles, ?_⟩
  rw [hroles, henforcer]
  rfl

/-- The first start. -/
theorem ensures_firstSeed :
    (runSeed cfg ctx).Ensures (Server.empty cfg)
      (fun _ s' => ∃ rows : List CustomRole, (∀ r ∈ rows, r.SystemRow [generateRid "tenant" (ctx.uuids 0)]) ∧
        s'.authz = ⟨[generateRid "user" (ctx.uuids 1)], [generateRid "tenant" (ctx.uuids 0)],
          [⟨generateRid "user" (ctx.uuids 1), generateRid "tenant" (ctx.uuids 0), "admin", true, ctx.now⟩], rows,
          (PermissionEnforcer.create cfg.rbacEnabled).seedPolicies.syncUserRole (generateRid "user" (ctx.uuids 1))
            "admin"⟩)
      fun _ _ => True := by
  unfold runSeed
  have hempty : (Server.empty cfg).db.users = [] := rfl
  simp only [ensures_bind, ensures_query, ensures_enforce, if_pos hempty, seedTables, ensures_flush, implies_true,
    and_true]
  intro db₁ h₁ db₂ h₂ db₃ h₃
  obtain ⟨_, hu₁, ht₁, hm₁, _, hr₁⟩ := Database.insertTenant_ok h₁
  obtain ⟨_, hu₂, ht₂, hm₂, _, hr₂⟩ := Database.insertUser_ok h₂
  obtain ⟨_, _, _, hu₃, ht₃, hm₃, _, hr₃⟩ := Database.insertMembership_ok h₃
  refine (ensures_seedSystemRoles 2 [generateRid "tenant" (ctx.uuids 0)]).mono ?_ fun _ _ h => h
  rintro _ s' ⟨rows, hrows, hauthz⟩
  refine ⟨rows, hrows, ?_⟩
  obtain ⟨husers, htenants, hmemberships, hroles, henforcer⟩ := Authz.mk.inj hauthz
  simp only [Server.authz, Authz.mk.injEq]
  have hstart : (Server.empty cfg).enforcer = .create cfg.rbacEnabled := rfl
  refine ⟨?_, ?_, ?_, ?_, by rw [henforcer]; simp only [Server.authz, hstart]⟩
  · rw [husers]
    simp [Server.authz, hu₃, hu₂, hu₁, Server.empty, Database.empty]
  · rw [htenants]
    simp [Server.authz, ht₃, ht₂, ht₁, Server.empty, Database.empty]
  · rw [hmemberships]
    simp [Server.authz, hm₃, hm₂, hm₁, Server.empty, Database.empty]
  · rw [hroles]
    simp [Server.authz, hr₃, hr₂, hr₁, Server.empty, Database.empty]

end Seed

/-! ## Steps -/

/-- What an event may make of memberships, roles and rules. -/
inductive Step (cfg : Config) (s : Server) : Event → Authz → Prop
  | call (ctx : Ctx) (op : Op) (a : Authz) (h : Effect ctx s op a) : Step cfg s (.call ctx op) a
  | restart (ctx : Ctx) (rows : List CustomRole) (hrows : ∀ r ∈ rows, r.SystemRow s.authz.tenants) :
      Step cfg s (.restart ctx) { s.authz with
        customRoles := s.authz.customRoles ++ rows
        enforcer := rebuilt cfg.rbacEnabled s.authz.memberships (s.authz.customRoles ++ rows) }
  | failed (ctx : Ctx) : Step cfg s (.restart ctx) s.authz
  | reorder (ts : List Tenant) (ms : List Membership) (tenants : List String) (memberships : List Membership)
      (ht : tenants.Perm s.authz.tenants) (hm : memberships.Perm s.authz.memberships) :
      Step cfg s (.reorder ts ms) { s.authz with tenants := tenants, memberships := memberships }

/-- The random values of the event are new. -/
def Event.Fresh (cfg : Config) (s : Server) : Event → Prop
  | .call ctx op => op.SignsIn → ctx.FreshToken cfg s.db
  | _ => True

instance (cfg : Config) (s : Server) : ∀ e : Event, Decidable (e.Fresh cfg s)
  | .call ctx op => inferInstanceAs (Decidable (op.SignsIn → ctx.FreshToken cfg s.db))
  | .restart _ | .reorder _ _ => isTrue trivial

section Steps
variable {cfg : Config} {s : Server}

theorem serve_ok {α : Type} {p : Session α} {a : α} {s' : Server} (h : serve p s = (.ok a, s')) :
    p.run s = (.ok a, s') := by
  unfold serve at h
  split at h
  · rename_i hrun
    rw [hrun, h]
  · cases h

theorem authz_booted {ctx : Ctx} {s' : Server} (hu : s.db.users ≠ []) (h : booted cfg ctx s = (.ok (), s')) :
    ∃ rows : List CustomRole, (∀ r ∈ rows, r.SystemRow s.authz.tenants) ∧
      s'.authz = { s.authz with
        customRoles := s.authz.customRoles ++ rows
        enforcer := rebuilt cfg.rbacEnabled s.authz.memberships (s.authz.customRoles ++ rows) } :=
  (ensures_runSeed hu).ok (serve_ok h)

theorem step_authz (hu : s.db.users ≠ []) {e : Event} (hfresh : e.Fresh cfg s) :
    Step cfg s e (s.next cfg e).authz := by
  cases e with
  | call ctx op => exact .call ctx op _ (effect_of_call op hfresh)
  | restart ctx =>
    cases hboot : booted cfg ctx s with
    | mk r s' =>
      cases r with
      | ok _ =>
        have hnext : s.next cfg (.restart ctx) = s' := by simp only [Server.next, hboot]
        obtain ⟨rows, hrows, hauthz⟩ := authz_booted hu hboot
        rw [hnext, hauthz]
        exact .restart ctx rows hrows
      | error e =>
        have hnext : s.next cfg (.restart ctx) = s := by simp only [Server.next, hboot]
        rw [hnext]
        exact .failed ctx
  | reorder ts ms =>
    have hnext : s.next cfg (.reorder ts ms) = { s with db := s.db.reorder ts ms } := rfl
    rw [hnext]
    by_cases h : ts.Perm s.db.tenants ∧ ms.Perm s.db.memberships
    · rw [Database.reorder, dif_pos h]
      exact .reorder ts ms _ _ (h.1.map Tenant.rid) h.2
    · rw [Database.reorder, dif_neg h]
      exact .reorder ts ms _ _ (List.Perm.refl _) (List.Perm.refl _)

/-- A start that succeeds has seeded the tables. -/
theorem authz_seeded {ctx : Ctx} (h : (booted cfg ctx (Server.empty cfg)).1 = .ok ()) :
    ∃ rows : List CustomRole, (∀ r ∈ rows, r.SystemRow [generateRid "tenant" (ctx.uuids 0)]) ∧
      (Server.seeded cfg ctx).authz = ⟨[generateRid "user" (ctx.uuids 1)], [generateRid "tenant" (ctx.uuids 0)],
        [⟨generateRid "user" (ctx.uuids 1), generateRid "tenant" (ctx.uuids 0), "admin", true, ctx.now⟩], rows,
        (PermissionEnforcer.create cfg.rbacEnabled).seedPolicies.syncUserRole (generateRid "user" (ctx.uuids 1))
          "admin"⟩ := by
  cases hboot : booted cfg ctx (Server.empty cfg) with
  | mk r s' =>
    rw [hboot] at h
    obtain rfl : r = .ok () := h
    have hnext : Server.seeded cfg ctx = s' := by
      unfold Server.seeded
      simp only [Server.next, hboot]
    rw [hnext]
    exact ensures_firstSeed.ok (serve_ok hboot)

/-- Users are only added. -/
theorem Step.users {e : Event} {a : Authz} (h : Step cfg s e a) : ∃ new, a.users = s.authz.users ++ new := by
  cases h with
  | call ctx op a h => cases h <;> first | exact ⟨[], (List.append_nil _).symm⟩ | exact ⟨_, rfl⟩
  | _ => exact ⟨[], (List.append_nil _).symm⟩

theorem users_next (hu : s.db.users ≠ []) {e : Event} (hfresh : e.Fresh cfg s) : (s.next cfg e).db.users ≠ [] := by
  obtain ⟨new, hnew⟩ := (step_authz hu hfresh).users
  intro hempty
  have hauthz : (s.next cfg e).authz.users = [] := by simp [Server.authz, hempty]
  rw [hauthz] at hnew
  exact hu (List.map_eq_nil_iff.mp (List.append_eq_nil_iff.mp hnew.symm).1)

end Steps
end Lingshu.Setting
