import Lingshu.Relation.Paging
import Lingshu.Setting.Admins

/-! # Removals of an admin

`remove_member` counts the admins among the members that `list_by_tenant` returns, which are the newest 20. Members of one
age come in any order. -/
namespace Lingshu.Setting
open Interaction Proc
set_option autoImplicit false

/-- Another member of the tenant is an admin. -/
def OtherAdmin (db : Database) (m : Membership) : Prop :=
  ∃ m' ∈ db.memberships, m'.tenantRid = m.tenantRid ∧ m'.role = "admin" ∧ m'.key ≠ m.key

/-- In whatever order the rows come, the member is removed if and only if another member is an admin. -/
def GuardExact (s : Server) (m : Membership) : Prop :=
  ∀ memberships, memberships.Perm s.db.memberships →
    ((removeMember m.tenantRid m.userRid).Returns { s with db := s.db.reorder s.db.tenants memberships } ↔
      OtherAdmin s.db m)

/-- Two admins have at most 18 members without the role created no earlier than the older of the two. -/
def TwoRecent (db : Database) (tenantRid : String) : Prop :=
  ∃ a ∈ db.memberships, ∃ b ∈ db.memberships, (a.tenantRid = tenantRid ∧ a.role = "admin") ∧
    (b.tenantRid = tenantRid ∧ b.role = "admin") ∧ a.key ≠ b.key ∧ b.createdAt ≤ a.createdAt ∧
    db.memberships.countP (fun c => c.tenantRid = tenantRid ∧ c.role ≠ "admin" ∧ b.createdAt ≤ c.createdAt) ≤ 18

/-! ## One order of the rows -/

section OneOrder
variable {s : Server} {db : Database} {m : Membership}

/-- An admin is removed if the page shows two. -/
theorem removeMember_returns (hm : m ∈ s.db.memberships) (hadmin : m.role = "admin") :
    (removeMember m.tenantRid m.userRid).Returns s ↔
      1 < (s.db.listByTenant m.tenantRid).countP fun m => m.role = "admin" := by
  have hfound : s.db.getMembership m.userRid m.tenantRid = some m := by
    obtain ⟨m', hget⟩ : ∃ m', s.db.getMembership m.userRid m.tenantRid = some m' :=
      Option.isSome_iff_exists.mp (List.find?_isSome.mpr ⟨m, hm, decide_eq_true rfl⟩)
    obtain ⟨hm', hkey⟩ := Database.getMembership_mem hget
    rw [hget, List.inj_on_of_nodup_map s.db.membershipKeys hm' hm hkey]
  simp only [removeMember, returns_bind, ensures_query, ensures_orRaise_returns, ensures_require_returns, hfound,
    Option.some.injEq, ensures_enforce]
  simp [Returns, hadmin]

theorem reorder_memberships {memberships : List Membership} (h : memberships.Perm db.memberships) :
    (db.reorder db.tenants memberships).memberships = memberships := by
  rw [Database.reorder, dif_pos ⟨List.Perm.refl _, h⟩]

/-- `ORDER BY created_at DESC`. -/
def newer (a b : Membership) : Bool := decide (b.createdAt ≤ a.createdAt)

theorem newer_total (a b : Membership) : newer a b ∨ newer b a := by
  simp only [newer, decide_eq_true_eq]
  exact Nat.le_total b.createdAt a.createdAt

theorem newer_trans (a b c : Membership) (hab : newer a b) (hbc : newer b c) : newer a c := by
  simp only [newer, decide_eq_true_eq] at *
  exact Nat.le_trans hbc hab

def membersOf (db : Database) (tenantRid : String) : List Membership :=
  db.memberships.filter fun m => m.tenantRid = tenantRid

/-- What `list_by_tenant` returns is the beginning of a sorted list, and every sorted list is one for some order of the
rows. -/
theorem forall_listByTenant {db : Database} {tenantRid : String} {P : List Membership → Prop} :
    (∀ memberships, memberships.Perm db.memberships → P ((db.reorder db.tenants memberships).listByTenant tenantRid)) ↔
      ∀ l, Paging.Sorted newer (membersOf db tenantRid) l → P (l.take 20) := by
  constructor
  · intro h l hl
    have hothers : (l ++ db.memberships.filter fun m => !decide (m.tenantRid = tenantRid)).Perm db.memberships :=
      (hl.perm.append_right _).trans (List.filter_append_perm _ _)
    have hin : ∀ m ∈ l, decide (m.tenantRid = tenantRid) = true := fun m hm =>
      (List.mem_filter.mp (hl.perm.mem_iff.mp hm)).2
    have hpage := h _ hothers
    have hsorted : l.Pairwise fun a b => b.createdAt ≤ a.createdAt := hl.sorted.imp fun h => of_decide_eq_true h
    rwa [Database.listByTenant, reorder_memberships hothers, List.filter_append, List.filter_eq_self.mpr hin,
      List.filter_eq_nil_iff.mpr fun m hm => by simpa using (List.mem_filter.mp hm).2, List.append_nil, newestFirst,
      hsorted.insertionSort_eq] at hpage
  · intro h memberships hperm
    rw [Database.listByTenant, reorder_memberships hperm]
    have htotal : Std.Total fun a b : Membership => b.createdAt ≤ a.createdAt := ⟨fun a b => Nat.le_total _ _⟩
    have htrans : IsTrans Membership fun a b => b.createdAt ≤ a.createdAt := ⟨fun a b c hab hbc => Nat.le_trans hbc hab⟩
    refine h _ ⟨(List.perm_insertionSort ..).trans (hperm.filter _), ?_⟩
    exact (List.pairwise_insertionSort ..).imp fun h => decide_eq_true h

end OneOrder

/-! ## All orders -/

theorem twoRecent_iff {db : Database} {tenantRid : String} : TwoRecent db tenantRid ↔
    ∀ l, Paging.Sorted newer (membersOf db tenantRid) l → 1 < (l.take 20).countP fun m => m.role = "admin" := by
  have hnodup : (membersOf db tenantRid).Nodup := (List.Nodup.of_map _ db.membershipKeys).filter _
  have hcount : ∀ b : Membership, (membersOf db tenantRid).countP (fun c => !decide (c.role = "admin") && newer c b) =
      db.memberships.countP fun c => c.tenantRid = tenantRid ∧ c.role ≠ "admin" ∧ b.createdAt ≤ c.createdAt := by
    intro b
    rw [membersOf, List.countP_filter]
    refine List.countP_congr fun c _ => ?_
    simp [newer, and_comm]
  have hmem : ∀ m, m ∈ membersOf db tenantRid ↔ m ∈ db.memberships ∧ m.tenantRid = tenantRid := fun m => by
    rw [membersOf, List.mem_filter, decide_eq_true_eq]
  rw [Paging.two_take_iff newer_total newer_trans hnodup]
  constructor
  · rintro ⟨a, ha, b, hb, ⟨hta, hra⟩, ⟨htb, hrb⟩, hne, hnewer, hfew⟩
    refine ⟨a, (hmem a).mpr ⟨ha, hta⟩, b, (hmem b).mpr ⟨hb, htb⟩, decide_eq_true hra, decide_eq_true hrb,
      fun hab => hne (congrArg Membership.key hab), decide_eq_true hnewer, ?_⟩
    rw [hcount]
    omega
  · rintro ⟨a, ha, b, hb, hra, hrb, hne, hnewer, hfew⟩
    obtain ⟨ha, hta⟩ := (hmem a).mp ha
    obtain ⟨hb, htb⟩ := (hmem b).mp hb
    refine ⟨a, ha, b, hb, ⟨hta, of_decide_eq_true hra⟩, ⟨htb, of_decide_eq_true hrb⟩,
      fun hkey => hne (List.inj_on_of_nodup_map db.membershipKeys ha hb hkey), of_decide_eq_true hnewer, ?_⟩
    rw [hcount] at hfew
    omega

/-- The guard is exact just when a tenant with another admin has two recent ones. -/
theorem guardExact_iff {s : Server} {m : Membership} (hm : m ∈ s.db.memberships) (hadmin : m.role = "admin") :
    GuardExact s m ↔ (OtherAdmin s.db m → TwoRecent s.db m.tenantRid) := by
  have hreturns : ∀ memberships, memberships.Perm s.db.memberships →
      ((removeMember m.tenantRid m.userRid).Returns { s with db := s.db.reorder s.db.tenants memberships } ↔
        1 < ((s.db.reorder s.db.tenants memberships).listByTenant m.tenantRid).countP fun m => m.role = "admin") := by
    intro memberships hperm
    refine removeMember_returns (s := { s with db := s.db.reorder s.db.tenants memberships }) ?_ hadmin
    rw [reorder_memberships hperm]
    exact hperm.mem_iff.mpr hm
  rw [twoRecent_iff, ← forall_listByTenant (P := fun page => 1 < page.countP fun m => decide (m.role = "admin"))]
  constructor
  · exact fun h hother memberships hperm => (hreturns memberships hperm).mp ((h memberships hperm).mpr hother)
  · intro h memberships hperm
    rw [hreturns memberships hperm]
    refine ⟨fun htwo => ?_, fun hother => h hother memberships hperm⟩
    obtain ⟨m', hm', hrest⟩ := hasAdmin_other htwo
    rw [reorder_memberships hperm] at hm'
    exact ⟨m', hperm.mem_iff.mp hm', hrest⟩

/-- Two admins of a tenant with two members. -/
def twoAdmins : Server :=
  twoMembers.next .plain (.call (.plain "ri.user.i" "ri.tenant." 2) (.assignRoleToUser "ri.user.n" "admin"))

instance (db : Database) (tenantRid : String) : Decidable (TwoRecent db tenantRid) :=
  inferInstanceAs (Decidable (∃ a ∈ db.memberships, ∃ b ∈ db.memberships, _ ∧ _ ∧ _ ∧ _ ∧ _))

theorem guardExact_twoAdmins : ∃ m ∈ twoAdmins.db.memberships, m.role = "admin" ∧ GuardExact twoAdmins m := by
  have hsome : ∃ m ∈ twoAdmins.db.memberships, m.role = "admin" ∧ TwoRecent twoAdmins.db m.tenantRid := by decide +kernel
  obtain ⟨m, hm, hadmin, htwo⟩ := hsome
  exact ⟨m, hm, hadmin, (guardExact_iff hm hadmin).mpr fun _ => htwo⟩

/-- Two admins, and 20 members that came later. -/
def crowdedDb : Database where
  users := (List.range 22).map fun i =>
    ⟨"ri.user." ++ toString i, "u" ++ toString i ++ "@example.com", "U", "", .active, i, i⟩
  tenants := [⟨"ri.tenant.t", "T", .active, .null, 0, 0⟩]
  memberships := (List.range 22).map fun i =>
    ⟨"ri.user." ++ toString i, "ri.tenant.t", if i < 2 then "admin" else "member", true, i⟩
  refreshTokens := []
  customRoles := []
  userKeys := by decide +kernel
  emails := by decide +kernel
  tenantKeys := by decide +kernel
  membershipKeys := by decide +kernel
  membershipUsers := by decide +kernel
  membershipTenants := by decide +kernel
  tokenKeys := by decide +kernel
  tokenUsers := by decide +kernel
  tokenTenants := by decide +kernel
  roleKeys := by decide +kernel
  roleNames := by decide +kernel

def firstAdmin : Membership := ⟨"ri.user.0", "ri.tenant.t", "admin", true, 0⟩

/-- One of two admins cannot be removed. -/
theorem otherAdmin_unseen : firstAdmin ∈ crowdedDb.memberships ∧ firstAdmin.role = "admin" ∧
    ¬ GuardExact ⟨crowdedDb, .create true, []⟩ firstAdmin := by
  have hmem : firstAdmin ∈ crowdedDb.memberships := by decide +kernel
  refine ⟨hmem, rfl, fun h => ?_⟩
  have hother : OtherAdmin crowdedDb firstAdmin :=
    ⟨⟨"ri.user.1", "ri.tenant.t", "admin", true, 1⟩, by decide +kernel, rfl, rfl, by decide +kernel⟩
  have hreturns := (h crowdedDb.memberships (List.Perm.refl _)).mpr hother
  have hcount := (removeMember_returns
    (s := ⟨crowdedDb.reorder crowdedDb.tenants crowdedDb.memberships, .create true, []⟩) hmem rfl).mp hreturns
  revert hcount
  decide +kernel

end Lingshu.Setting
