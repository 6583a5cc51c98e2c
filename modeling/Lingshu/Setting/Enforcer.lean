import Lingshu.Setting.Schema
import Mathlib.Logic.Relation

/-! # PermissionEnforcer

`enforcer.py` over the Casbin model of `model.conf`. The rules are kept in the order they were added, without
duplicates. Casbin's role manager, which decides `g`, is a `RoleManager`: what its documentation says of links,
with the bound on the depth of the hierarchy left open. -/
namespace Lingshu.Setting
set_option autoImplicit false

/-! ## Casbin -/

/-- A rule `p, sub, obj, act, res`. -/
structure Policy where
  sub : String
  obj : String
  act : String
  res : String
  deriving DecidableEq, Repr

/-- A rule `g, user, role`. -/
abbrev Grouping := String × String

/-- `g`: a name is linked to itself, to what it is grouped with, and to nothing that no chain of groupings
leads to; the order of the rules plays no part. -/
structure RoleManager where
  hasLink : List Grouping → String → String → Bool
  refl : ∀ gs a, hasLink gs a a
  direct : ∀ gs a b, (a, b) ∈ gs → hasLink gs a b
  chain : ∀ gs a b, hasLink gs a b → Relation.ReflTransGen (fun x y => (x, y) ∈ gs) a b
  congr : ∀ gs gs' a b, (∀ g, g ∈ gs ↔ g ∈ gs') → hasLink gs a b = hasLink gs' a b

/-- A chain of at most `depth` groupings. -/
def linked (gs : List Grouping) : ℕ → String → String → Bool
  | 0, a, b => decide (a = b)
  | depth + 1, a, b => decide (a = b) || gs.any fun g => decide (g.1 = a) && linked gs depth g.2 b

theorem linked_refl (gs : List Grouping) (depth : ℕ) (a : String) : linked gs depth a a := by
  cases depth <;> simp [linked]

theorem linked_direct {gs : List Grouping} {a b : String} (depth : ℕ) (h : (a, b) ∈ gs) :
    linked gs (depth + 1) a b := by
  simp only [linked, Bool.or_eq_true, List.any_eq_true, Bool.and_eq_true, decide_eq_true_eq]
  exact .inr ⟨_, h, rfl, linked_refl gs depth b⟩

theorem linked_chain {gs : List Grouping} (depth : ℕ) {a b : String} (h : linked gs depth a b) :
    Relation.ReflTransGen (fun x y => (x, y) ∈ gs) a b := by
  induction depth generalizing a with
  | zero =>
    obtain rfl := of_decide_eq_true h
    exact .refl
  | succ depth ih =>
    simp only [linked, Bool.or_eq_true, List.any_eq_true, Bool.and_eq_true, decide_eq_true_eq] at h
    rcases h with rfl | ⟨g, hg, rfl, hlink⟩
    · exact .refl
    · exact (ih hlink).head hg

theorem linked_congr {gs gs' : List Grouping} (h : ∀ g, g ∈ gs ↔ g ∈ gs') (depth : ℕ) (a b : String) :
    linked gs depth a b = linked gs' depth a b := by
  induction depth generalizing a with
  | zero => rfl
  | succ depth ih =>
    have hany : (gs.any fun g => decide (g.1 = a) && linked gs depth g.2 b) =
        gs'.any fun g => decide (g.1 = a) && linked gs' depth g.2 b := by
      rw [Bool.eq_iff_iff, List.any_eq_true, List.any_eq_true]
      constructor
      · rintro ⟨g, hg, hlink⟩
        exact ⟨g, (h g).mp hg, by rwa [← ih]⟩
      · rintro ⟨g, hg, hlink⟩
        exact ⟨g, (h g).mpr hg, by rwa [ih]⟩
    rw [linked, linked, hany]

/-- Casbin's default role manager, whose hierarchy has at most ten levels. -/
def defaultRoleManager : RoleManager where
  hasLink gs a b := linked gs 10 a b
  refl gs a := linked_refl gs 10 a
  direct _ _ _ h := linked_direct 9 h
  chain _ _ _ h := linked_chain 10 h
  congr _ _ a b h := linked_congr h 10 a b

/-! ## System roles -/

/-- `sorted(_MEMBER_WRITE_RESOURCES)`. -/
def memberWriteResources : List String :=
  ["action", "action_type", "connection", "function", "instance", "interface_type", "link_type", "object_type",
    "shared_property_type", "workflow"]

def memberWriteActions : List String := ["write", "create", "update", "delete"]

/-- `SYSTEM_ROLE_DEFINITIONS`: the description and the permissions of each. -/
def SystemRole.description : SystemRole → String
  | .admin => "Full access to all resources"
  | .member => "Read all resources, write business entities, execute actions/functions"
  | .viewer => "Read-only access to all resources"

def SystemRole.permissions : SystemRole → List Permission
  | .admin => [{ resourceType := "*", action := "*" }]
  | .member => { resourceType := "*", action := "read" } ::
      (memberWriteResources.flatMap fun r => memberWriteActions.map fun a => { resourceType := r, action := a }) ++
      [{ resourceType := "action", action := "execute" }, { resourceType := "function", action := "execute" }]
  | .viewer => [{ resourceType := "*", action := "read" }]

/-- The keys of `SYSTEM_ROLE_DEFINITIONS`, in order. -/
def systemRoles : List SystemRole := [.admin, .member, .viewer]

/-! ## PermissionEnforcer -/

/-- The rules in memory. -/
structure PermissionEnforcer where
  rbacEnabled : Bool
  policies : List Policy
  groupings : List Grouping
  deriving DecidableEq

namespace PermissionEnforcer

/-- `__init__`. -/
def create (rbacEnabled : Bool) : PermissionEnforcer := ⟨rbacEnabled, [], []⟩

/-- `if not e.has_policy(...): e.add_policy(...)`. -/
def addPolicy (e : PermissionEnforcer) (p : Policy) : PermissionEnforcer :=
  if p ∈ e.policies then e else { e with policies := e.policies ++ [p] }

/-- The rules that `seed_policies` adds, in order. -/
def seedRules : List Policy :=
  ⟨"admin", "*", "*", "*"⟩ :: ⟨"member", "*", "read", "*"⟩ ::
    (memberWriteResources.flatMap fun r => memberWriteActions.map fun a => ⟨"member", r, a, "*"⟩) ++
    [⟨"member", "action", "execute", "*"⟩, ⟨"member", "function", "execute", "*"⟩, ⟨"viewer", "*", "read", "*"⟩]

def seedPolicies (e : PermissionEnforcer) : PermissionEnforcer := seedRules.foldl addPolicy e

def syncUserRole (e : PermissionEnforcer) (userRid role : String) : PermissionEnforcer :=
  if (userRid, role) ∈ e.groupings then e else { e with groupings := e.groupings ++ [(userRid, role)] }

def removeUserRole (e : PermissionEnforcer) (userRid role : String) : PermissionEnforcer :=
  { e with groupings := e.groupings.filter fun g => g ≠ (userRid, role) }

/-- The rule of a permission; `perm.get(key, "*")`. -/
def policyOf (roleName : String) (p : Permission) : Policy :=
  ⟨roleName, p.resourceType, p.action, p.resourceRid.getD "*"⟩

def addCustomRolePolicies (e : PermissionEnforcer) (roleName : String) (permissions : List Permission) :
    PermissionEnforcer :=
  (permissions.map (policyOf roleName)).foldl addPolicy e

/-- `remove_filtered_policy(0, role_name)`. -/
def removeRolePolicies (e : PermissionEnforcer) (roleName : String) : PermissionEnforcer :=
  { e with policies := e.policies.filter fun p => p.sub ≠ roleName }

end PermissionEnforcer

/-- A request of `enforce`, apart from the user. -/
structure Query where
  resourceType : String
  action : String
  resourceRid : Option String := none
  deriving DecidableEq, Repr

/-- `resource_rid or "*"`. -/
def Query.res (q : Query) : String :=
  match q.resourceRid with
  | none | some "" => "*"
  | some rid => rid

/-- The matcher of `model.conf` but for `g`. -/
def Policy.covers (p : Policy) (q : Query) : Bool :=
  (decide (p.obj = "*") || decide (q.resourceType = p.obj)) && (decide (p.act = "*") || decide (q.action = p.act)) &&
    (decide (p.res = "*") || decide (q.res = p.res))

/-- `check_permission`: some rule allows the request. -/
def PermissionEnforcer.checkPermission (rm : RoleManager) (e : PermissionEnforcer) (userId : String) (q : Query) :
    Bool :=
  !e.rbacEnabled || e.policies.any fun p => rm.hasLink e.groupings userId p.sub && p.covers q

/-! ## What the operations do to the rules -/

namespace PermissionEnforcer
variable {e : PermissionEnforcer} {p q : Policy} {g : Grouping} {u role name : String}

@[simp] theorem addPolicy_rbacEnabled : (e.addPolicy p).rbacEnabled = e.rbacEnabled := by
  unfold addPolicy; split <;> rfl

@[simp] theorem addPolicy_groupings : (e.addPolicy p).groupings = e.groupings := by
  unfold addPolicy; split <;> rfl

@[simp] theorem mem_addPolicy : q ∈ (e.addPolicy p).policies ↔ q ∈ e.policies ∨ q = p := by
  unfold addPolicy
  split
  · rename_i hp
    constructor
    · exact .inl
    · rintro (h | rfl)
      · exact h
      · exact hp
  · simp

@[simp] theorem foldl_addPolicy_rbacEnabled (ps : List Policy) :
    (ps.foldl addPolicy e).rbacEnabled = e.rbacEnabled := by
  induction ps generalizing e with
  | nil => rfl
  | cons p ps ih => rw [List.foldl_cons, ih, addPolicy_rbacEnabled]

@[simp] theorem foldl_addPolicy_groupings (ps : List Policy) : (ps.foldl addPolicy e).groupings = e.groupings := by
  induction ps generalizing e with
  | nil => rfl
  | cons p ps ih => rw [List.foldl_cons, ih, addPolicy_groupings]

@[simp] theorem mem_foldl_addPolicy (ps : List Policy) :
    q ∈ (ps.foldl addPolicy e).policies ↔ q ∈ e.policies ∨ q ∈ ps := by
  induction ps generalizing e with
  | nil => simp
  | cons p ps ih =>
    rw [List.foldl_cons, ih, mem_addPolicy, List.mem_cons, or_assoc]

@[simp] theorem syncUserRole_rbacEnabled : (e.syncUserRole u role).rbacEnabled = e.rbacEnabled := by
  unfold syncUserRole; split <;> rfl

@[simp] theorem syncUserRole_policies : (e.syncUserRole u role).policies = e.policies := by
  unfold syncUserRole; split <;> rfl

@[simp] theorem mem_syncUserRole : g ∈ (e.syncUserRole u role).groupings ↔ g ∈ e.groupings ∨ g = (u, role) := by
  unfold syncUserRole
  split
  · rename_i hg
    constructor
    · exact .inl
    · rintro (h | rfl)
      · exact h
      · exact hg
  · simp

@[simp] theorem removeUserRole_rbacEnabled : (e.removeUserRole u role).rbacEnabled = e.rbacEnabled := rfl

@[simp] theorem removeUserRole_policies : (e.removeUserRole u role).policies = e.policies := rfl

@[simp] theorem mem_removeUserRole : g ∈ (e.removeUserRole u role).groupings ↔ g ∈ e.groupings ∧ g ≠ (u, role) := by
  simp [removeUserRole]

@[simp] theorem addCustomRolePolicies_rbacEnabled (ps : List Permission) :
    (e.addCustomRolePolicies name ps).rbacEnabled = e.rbacEnabled := foldl_addPolicy_rbacEnabled _

@[simp] theorem addCustomRolePolicies_groupings (ps : List Permission) :
    (e.addCustomRolePolicies name ps).groupings = e.groupings := foldl_addPolicy_groupings _

@[simp] theorem mem_addCustomRolePolicies (ps : List Permission) :
    q ∈ (e.addCustomRolePolicies name ps).policies ↔ q ∈ e.policies ∨ ∃ p ∈ ps, policyOf name p = q := by
  rw [addCustomRolePolicies, mem_foldl_addPolicy, List.mem_map]

@[simp] theorem removeRolePolicies_rbacEnabled : (e.removeRolePolicies name).rbacEnabled = e.rbacEnabled := rfl

@[simp] theorem removeRolePolicies_groupings : (e.removeRolePolicies name).groupings = e.groupings := rfl

@[simp] theorem mem_removeRolePolicies :
    q ∈ (e.removeRolePolicies name).policies ↔ q ∈ e.policies ∧ q.sub ≠ name := by
  simp [removeRolePolicies]

@[simp] theorem seedPolicies_rbacEnabled : e.seedPolicies.rbacEnabled = e.rbacEnabled := foldl_addPolicy_rbacEnabled _

@[simp] theorem seedPolicies_groupings : e.seedPolicies.groupings = e.groupings := foldl_addPolicy_groupings _

theorem mem_seedPolicies : q ∈ e.seedPolicies.policies ↔ q ∈ e.policies ∨ q ∈ seedRules := mem_foldl_addPolicy _

/-- The rules of the seed are those of the system roles' permissions. -/
theorem mem_seedRules : q ∈ seedRules ↔ ∃ role : SystemRole, ∃ p ∈ role.permissions, policyOf role.name p = q := by
  constructor
  · have hall : ∀ q ∈ seedRules, ∃ role ∈ systemRoles, ∃ p ∈ role.permissions, policyOf role.name p = q := by decide
    intro h
    obtain ⟨role, _, p, hp, he⟩ := hall q h
    exact ⟨role, p, hp, he⟩
  · rintro ⟨role, p, hp, rfl⟩
    have hall : ∀ p ∈ role.permissions, policyOf role.name p ∈ seedRules := by cases role <;> decide
    exact hall p hp

/-- What a check answers depends on the rules as sets. -/
theorem checkPermission_congr (rm : RoleManager) {e e' : PermissionEnforcer} (hr : e.rbacEnabled = e'.rbacEnabled)
    (hp : ∀ p, p ∈ e.policies ↔ p ∈ e'.policies) (hg : ∀ g, g ∈ e.groupings ↔ g ∈ e'.groupings) (u : String)
    (q : Query) : e.checkPermission rm u q = e'.checkPermission rm u q := by
  have hany : (e.policies.any fun p => rm.hasLink e.groupings u p.sub && p.covers q) =
      e'.policies.any fun p => rm.hasLink e'.groupings u p.sub && p.covers q := by
    rw [Bool.eq_iff_iff, List.any_eq_true, List.any_eq_true]
    simp only [hp, rm.congr _ _ _ _ hg]
  rw [checkPermission, checkPermission, hr, hany]

theorem checkPermission_iff (rm : RoleManager) (h : e.rbacEnabled) {q : Query} :
    e.checkPermission rm u q ↔ ∃ p ∈ e.policies, rm.hasLink e.groupings u p.sub ∧ p.covers q := by
  simp [checkPermission, h]

end PermissionEnforcer
end Lingshu.Setting
