import Lingshu.Setting.Effects

/-! # The last admin of a tenant

`remove_member` keeps the last admin of a tenant; `update_member_role` and `assign_role_to_user` ask nothing before
they replace a role. -/
namespace Lingshu.Setting
open Interaction Proc
set_option autoImplicit false

/-- The tenant has a member with the admin role. -/
def Database.HasAdmin (db : Database) (tenantRid : String) : Prop :=
  ∃ m ∈ db.memberships, m.tenantRid = tenantRid ∧ m.role = "admin"

instance (db : Database) (tenantRid : String) : Decidable (db.HasAdmin tenantRid) :=
  inferInstanceAs (Decidable (∃ m ∈ db.memberships, m.tenantRid = tenantRid ∧ m.role = "admin"))

/-- The calls that change who is a member, and in which role. -/
def Op.managesMembers : Op → Bool
  | .addMember .. | .updateMemberRole .. | .removeMember .. | .assignRoleToUser .. | .deleteRole .. => true
  | _ => false

/-- The member whose role the call replaces, and the new role. -/
def Op.reassigns (ctx : Ctx) : Op → Option ((String × String) × String)
  | .updateMemberRole tenantRid userRid role => some ((userRid, tenantRid), role.name)
  | .assignRoleToUser userRid roleName => some ((userRid, ctx.tenantId), roleName)
  | _ => none

/-- Whoever in the tenant gets a role other than admin, another member is an admin. -/
def LeavesAdmin (tenantRid : String) (s : Server) : Event → Prop
  | .call ctx op => ∀ userRid role, op.reassigns ctx = some ((userRid, tenantRid), role) → role ≠ "admin" →
      ∃ m ∈ s.db.memberships, m.tenantRid = tenantRid ∧ m.role = "admin" ∧ m.userRid ≠ userRid
  | _ => True

/-- The event is one of the calls. -/
def Event.ManagesMembers : Event → Prop
  | .call _ op => op.managesMembers = true
  | _ => False

/-! ## One call -/

theorem Op.managesMembers_of_reassigns {ctx : Ctx} {op : Op} {target : (String × String) × String}
    (h : op.reassigns ctx = some target) : op.managesMembers = true := by
  cases op <;> first | rfl | cases h

theorem Op.not_signsIn {op : Op} (h : op.managesMembers = true) : ¬ op.SignsIn := by
  cases op <;> first | exact id | cases h

section Step
variable {cfg : Config} {ctx : Ctx} {s : Server} {db : Database} {tenantRid userRid role : String}

theorem setRole_role (m : Membership) (h : m.key = (userRid, tenantRid)) :
    (m.setRole (userRid, tenantRid) role).role = role := by
  rw [Membership.setRole, if_pos h]

theorem setRole_other (m : Membership) (h : m.key ≠ (userRid, tenantRid)) :
    m.setRole (userRid, tenantRid) role = m := if_neg h

/-- After a member of the tenant has got a role, the tenant has an admin if that role is admin or another member is one. -/
theorem hasAdmin_map_setRole {key : String × String} {memberships : List Membership}
    (hkey : key ∈ memberships.map Membership.key) :
    (∃ m ∈ memberships.map (Membership.setRole key role), m.tenantRid = tenantRid ∧ m.role = "admin") ↔
      (key.2 = tenantRid ∧ role = "admin") ∨
        ∃ m ∈ memberships, m.tenantRid = tenantRid ∧ m.role = "admin" ∧ m.key ≠ key := by
  obtain ⟨userRid, memberTenant⟩ := key
  constructor
  · rintro ⟨m', hm', ht, hr⟩
    obtain ⟨m, hm, rfl⟩ := List.mem_map.mp hm'
    rw [Membership.setRole_tenantRid] at ht
    by_cases h : m.key = (userRid, memberTenant)
    · rw [setRole_role m h] at hr
      exact .inl ⟨(congrArg Prod.snd h).symm.trans ht, hr⟩
    · rw [setRole_other m h] at hr
      exact .inr ⟨m, hm, ht, hr, h⟩
  · rintro (⟨rfl, rfl⟩ | ⟨m, hm, ht, hr, h⟩)
    · obtain ⟨m, hm, h⟩ := List.mem_map.mp hkey
      refine ⟨_, List.mem_map_of_mem (f := Membership.setRole _ _) hm, ?_, setRole_role m h⟩
      rw [Membership.setRole_tenantRid]
      exact congrArg Prod.snd h
    · have hsame : m.setRole (userRid, memberTenant) role = m := setRole_other m h
      refine ⟨m, ?_, ht, hr⟩
      rw [← hsame]
      exact List.mem_map_of_mem hm

/-- Where the page shows a second admin, the tenant has one. -/
theorem hasAdmin_other {m : Membership} (h : 1 < (db.listByTenant m.tenantRid).countP fun m => m.role = "admin") :
    ∃ m' ∈ db.memberships, m'.tenantRid = m.tenantRid ∧ m'.role = "admin" ∧ m'.key ≠ m.key := by
  by_contra hnone
  push Not at hnone
  let rows := db.memberships.filter fun m' => m'.tenantRid = m.tenantRid
  have hpage : (db.listByTenant m.tenantRid).countP (fun m => decide (m.role = "admin")) ≤
      rows.countP fun m => m.role = "admin" := by
    rw [← (List.perm_insertionSort (fun a b => Membership.createdAt b ≤ Membership.createdAt a) rows).countP_eq]
    exact (List.take_sublist 20 _).countP_le
  have hkeys : rows.countP (fun m => decide (m.role = "admin")) ≤ (rows.map Membership.key).count m.key := by
    rw [List.count, List.countP_map]
    refine List.countP_mono_left fun m' hm' hr => ?_
    obtain ⟨hm', ht⟩ := List.mem_filter.mp hm'
    simpa using hnone m' hm' (of_decide_eq_true ht) (of_decide_eq_true hr)
  have hnodup : (rows.map Membership.key).Nodup := db.membershipKeys.sublist (List.filter_sublist.map _)
  have hone := List.nodup_iff_count_le_one.mp hnodup m.key
  omega

theorem getMembership_updateMembershipRole (db : Database) (userRid tenantRid role : String) :
    (db.updateMembershipRole userRid tenantRid role).getMembership userRid tenantRid =
      (db.getMembership userRid tenantRid).map (Membership.setRole (userRid, tenantRid) role) := by
  have hpred : ((fun m : Membership => decide (m.key = (userRid, tenantRid))) ∘
      Membership.setRole (userRid, tenantRid) role) = fun m => decide (m.key = (userRid, tenantRid)) := by
    funext m
    simp [Membership.setRole_key]
  rw [Database.getMembership, Database.updateMembershipRole, List.find?_map, hpred]
  rfl

/-- A call that replaces the role of a member returns, and has replaced it. -/
theorem next_reassigns {op : Op} {key : String × String} (hop : op.reassigns ctx = some (key, role))
    (hkey : key ∈ s.db.memberships.map Membership.key) :
    (s.next cfg (.call ctx op)).db.memberships = s.db.memberships.map (Membership.setRole key role) := by
  obtain ⟨m, hm⟩ : ∃ m, s.db.getMembership key.1 key.2 = some m := by
    refine Option.isSome_iff_exists.mp (List.find?_isSome.mpr ?_)
    obtain ⟨m, hm, hk⟩ := List.mem_map.mp hkey
    exact ⟨m, hm, by simpa using hk⟩
  obtain ⟨hmem, hmk⟩ := Database.getMembership_mem hm
  have hreturns : (op.run cfg ctx).Ensures s
      (fun _ s' => s'.db.memberships = s.db.memberships.map (Membership.setRole key role)) fun _ _ => False := by
    cases op with
    | updateMemberRole tenantRid userRid newRole =>
      obtain ⟨rfl, rfl⟩ := Prod.mk.inj (Option.some.inj hop)
      simp only [Op.run, updateMemberRole, replaceUserRole, ensures_bind, ensures_query, ensures_orRaise,
        ensures_execute, ensures_enforce, ensures_pure, hm, getMembership_updateMembershipRole, Option.map_some,
        Option.some.injEq, forall_eq']
      obtain rfl : m.userRid = userRid := congrArg Prod.fst hmk
      have huser : s.db.getUser m.userRid ≠ none := Database.getUser_of_member hmem
      exact ⟨⟨⟨fun _ _ => rfl, huser⟩, by simp⟩, by simp⟩
    | assignRoleToUser userRid roleName =>
      obtain ⟨rfl, rfl⟩ := Prod.mk.inj (Option.some.inj hop)
      simp only [Op.run, assignRoleToUser, replaceUserRole, ensures_bind, ensures_query, ensures_orRaise,
        ensures_execute, ensures_enforce, ensures_pure, hm, Option.some.injEq, forall_eq']
      exact ⟨rfl, by simp⟩
    | _ => cases hop
  cases hrun : (op.run cfg ctx).run s with
  | mk r s' =>
    cases r with
    | ok reply =>
      rw [next_call_ok hrun]
      exact hreturns.ok hrun
    | error e => exact (hreturns.error hrun).elim

theorem next_stranger {op : Op} {key : String × String} (hop : op.reassigns ctx = some (key, role))
    (hkey : key ∉ s.db.memberships.map Membership.key) :
    (s.next cfg (.call ctx op)).db.memberships = s.db.memberships := by
  have hmanages := Op.managesMembers_of_reassigns hop
  have heffect : Effect ctx s op (s.next cfg (.call ctx op)).authz :=
    effect_of_call op fun hsigns => absurd hsigns (Op.not_signsIn hmanages)
  have hmember : ∀ m ∈ s.db.memberships, m.key ≠ key := fun m hm hk => hkey (hk ▸ List.mem_map_of_mem hm)
  suffices h : ∀ a, Effect ctx s op a → a.memberships = s.db.memberships from h _ heffect
  intro a ha
  cases ha with
  | keep => rfl
  | setRole _ m newRole hm hops =>
    refine absurd ?_ (hmember m hm)
    rcases hops with ⟨r, rfl, _⟩ | ⟨rfl, ht⟩
    · exact (Prod.mk.inj (Option.some.inj hop)).1
    · rw [← (Prod.mk.inj (Option.some.inj hop)).1, ← ht]
      rfl
  | sync _ hsigns => exact absurd hsigns (Op.not_signsIn hmanages)
  | addUser _ _ _ _ _ hops => rcases hops with ⟨_, rfl⟩ | ⟨_, rfl⟩ <;> cases hop
  | _ => cases hop

theorem hasAdmin_reassigned {op : Op} {key : String × String} (hop : op.reassigns ctx = some (key, role))
    (hadmin : s.db.HasAdmin tenantRid) :
    (s.next cfg (.call ctx op)).db.HasAdmin tenantRid ↔ LeavesAdmin tenantRid s (.call ctx op) := by
  have hleaves : LeavesAdmin tenantRid s (.call ctx op) ↔ (key.2 = tenantRid → role ≠ "admin" →
      ∃ m ∈ s.db.memberships, m.tenantRid = tenantRid ∧ m.role = "admin" ∧ m.userRid ≠ key.1) := by
    simp only [LeavesAdmin, hop, Option.some.injEq, Prod.mk.injEq]
    constructor
    · exact fun h ht => h key.1 role ⟨Prod.ext rfl ht, rfl⟩
    · rintro h userRid role' ⟨rfl, rfl⟩
      exact h rfl
  rw [hleaves]
  by_cases hkey : key ∈ s.db.memberships.map Membership.key
  · rw [Database.HasAdmin, next_reassigns hop hkey, hasAdmin_map_setRole hkey]
    constructor
    · rintro (⟨_, hr⟩ | ⟨m, hm, ht, hr, hne⟩) htenant hrole
      · exact absurd hr hrole
      · exact ⟨m, hm, ht, hr, fun hu => hne (Prod.ext hu (ht.trans htenant.symm))⟩
    · intro h
      by_cases htenant : key.2 = tenantRid
      · by_cases hrole : role = "admin"
        · exact .inl ⟨htenant, hrole⟩
        · obtain ⟨m, hm, ht, hr, hu⟩ := h htenant hrole
          exact .inr ⟨m, hm, ht, hr, fun hk => hu (congrArg Prod.fst hk)⟩
      · obtain ⟨m, hm, ht, hr⟩ := hadmin
        exact .inr ⟨m, hm, ht, hr, fun hk => htenant ((congrArg Prod.snd hk).symm.trans ht)⟩
  · -- There is no such member: the call raises, and every admin is another user.
    have hsame : (s.next cfg (.call ctx op)).db.memberships = s.db.memberships := next_stranger hop hkey
    rw [Database.HasAdmin, hsame]
    refine iff_of_true hadmin fun htenant _ => ?_
    obtain ⟨m, hm, ht, hr⟩ := hadmin
    refine ⟨m, hm, ht, hr, fun hu => hkey ?_⟩
    rw [← show m.key = key from Prod.ext hu (ht.trans htenant.symm)]
    exact List.mem_map_of_mem hm

/-- After a call that manages members the tenant still has an admin exactly when the call leaves it one. -/
theorem hasAdmin_next {op : Op} (hop : op.managesMembers = true) (hadmin : s.db.HasAdmin tenantRid) :
    (s.next cfg (.call ctx op)).db.HasAdmin tenantRid ↔ LeavesAdmin tenantRid s (.call ctx op) := by
  cases hre : op.reassigns ctx with
  | some target => exact hasAdmin_reassigned hre hadmin
  | none =>
    refine iff_of_true ?_ fun userRid role h => nomatch hre.symm.trans h
    have heffect : Effect ctx s op (s.next cfg (.call ctx op)).authz :=
      effect_of_call op fun hsigns => absurd hsigns (Op.not_signsIn hop)
    suffices h : ∀ a, Effect ctx s op a → ∃ m ∈ a.memberships, m.tenantRid = tenantRid ∧ m.role = "admin" from
      h _ heffect
    obtain ⟨m, hm, ht, hr⟩ := hadmin
    intro a ha
    cases ha with
    | keep | deleteRole => exact ⟨m, hm, ht, hr⟩
    | addMember => exact ⟨m, List.mem_append_left _ hm, ht, hr⟩
    | removeMember gone hgone hlast =>
      by_cases hk : m.key = gone.key
      · obtain rfl : m = gone := List.inj_on_of_nodup_map s.db.membershipKeys hm hgone hk
        obtain ⟨m', hm', ht', hr', hne⟩ := hasAdmin_other (hlast hr)
        exact ⟨m', List.mem_filter.mpr ⟨hm', decide_eq_true hne⟩, ht'.trans ht, hr'⟩
      · exact ⟨m, List.mem_filter.mpr ⟨hm, decide_eq_true hk⟩, ht, hr⟩
    | sync _ hsigns => exact absurd hsigns (Op.not_signsIn hop)
    | addUser _ _ _ _ _ hops => rcases hops with ⟨_, rfl⟩ | ⟨_, rfl⟩ <;> cases hop
    | setRole _ _ _ _ hops => rcases hops with ⟨_, rfl, _⟩ | ⟨rfl, _⟩ <;> cases hre
    | _ => cases hop

end Step

/-! ## Sequences of calls -/

/-- All along a sequence of calls that manage members, a tenant with an admin keeps one exactly when every call
that gives a member another role leaves the tenant another admin. -/
theorem admin_remains_iff {cfg : Config} {s : Server} {tenantRid : String} {es : List Event}
    (hadmin : s.db.HasAdmin tenantRid) (hes : ∀ e ∈ es, e.ManagesMembers) :
    (∀ fs, fs <+: es → (runFrom (Server.next cfg) s fs).db.HasAdmin tenantRid) ↔
      StepsMeet (Server.next cfg) (LeavesAdmin tenantRid) s es := by
  refine steps_inv_iff (J := fun s : Server => s.db.HasAdmin tenantRid) (K := fun _ => True) ?_ (fun _ _ _ _ _ _ => trivial)
    trivial hadmin (StepsMeet.of_mem hes)
  intro s e _ hs he
  cases e with
  | call ctx op => exact hasAdmin_next he hs
  | restart | reorder => cases he

/-- After the first start, where the seeded admin is the only member of the only tenant. -/
def oneAdmin : Server := Server.seeded .plain (.plain "" "" 0)

/-- A second member is made an admin, then the first one is removed. -/
def handedOver : List Event :=
  [.call (.plain "ri.user.i" "ri.tenant." 2) (.assignRoleToUser "ri.user.n" "admin"),
    .call (.plain "ri.user.n" "ri.tenant." 3) (.removeMember "ri.tenant." "ri.user.i")]

def twoMembers : Server :=
  oneAdmin.next .plain (.call (.plain "ri.user.i" "ri.tenant." 1)
    (.createUser { email := "u@example.com", displayName := ⟨"V", fits_v⟩, password := "secret123" }))

theorem admin_remains_handedOver :
    (∀ fs, fs <+: handedOver → (runFrom (Server.next .plain) twoMembers fs).db.HasAdmin "ri.tenant.") ↔
      StepsMeet (Server.next .plain) (LeavesAdmin "ri.tenant.") twoMembers handedOver :=
  admin_remains_iff (by decide +kernel) (by
    intro e he
    rcases List.mem_cons.mp he with rfl | he
    · rfl
    · rw [List.mem_singleton.mp he]
      rfl)

/-- The only admin makes itself a viewer. -/
def demotion : List Event :=
  [.call (.plain "ri.user.i" "ri.tenant." 1) (.updateMemberRole "ri.tenant." "ri.user.i" .viewer)]

theorem lastAdmin_demoted : ¬ ∀ (s : Server) (tenantRid : String) (es : List Event), Reachable .plain s →
    s.db.HasAdmin tenantRid → (∀ e ∈ es, e.ManagesMembers) →
      (runFrom (Server.next .plain) s es).db.HasAdmin tenantRid := by
  intro h
  have hstart : (booted .plain (.plain "" "" 0) (Server.empty .plain)).1 = .ok () := by decide +kernel
  have hreach : Reachable .plain oneAdmin := ⟨.plain "" "" 0, [], hstart, runFrom_nil _ _⟩
  have hadmin : oneAdmin.db.HasAdmin "ri.tenant." := by decide +kernel
  have hlost : ¬ (runFrom (Server.next .plain) oneAdmin demotion).db.HasAdmin "ri.tenant." := by decide +kernel
  have hcalls : ∀ e ∈ demotion, e.ManagesMembers := by
    intro e he
    obtain rfl := List.mem_singleton.mp he
    rfl
  exact hlost (h oneAdmin "ri.tenant." demotion hreach hadmin hcalls)

end Lingshu.Setting
