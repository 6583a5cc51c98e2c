import Lingshu.Setting.Effects

/-! # Whom tokens are issued for

An access token names a user, a tenant and a role. `Current` is what each issuing method leaves unchecked: the
tenant at a sign-in, the user at a switch of tenant, and all three at a refresh. -/
namespace Lingshu.Setting
open Interaction Proc
set_option autoImplicit false

namespace Database

def ActiveUser (db : Database) (rid : String) : Prop := ∃ u ∈ db.users, u.rid = rid ∧ u.status = .active

def ActiveTenant (db : Database) (rid : String) : Prop := ∃ t ∈ db.tenants, t.rid = rid ∧ t.status = .active

instance (k : String × String) (db : Database) : Decidable (k ∈ db.memberships.map Membership.key) :=
  decidable_of_iff (∃ m ∈ db.memberships, m.key = k) List.mem_map.symm

/-- The memberships after SSO has added the user to the tenant. -/
def joined (db : Database) (now : Time) (userRid tenantRid : String) : List Membership :=
  if (userRid, tenantRid) ∈ db.memberships.map Membership.key then db.memberships
  else db.memberships ++ [⟨userRid, tenantRid, "member", false, now⟩]

end Database

/-- The token names an active user, an active tenant, and the user's role in it. -/
structure TokenPayload.Fits (db : Database) (payload : TokenPayload) : Prop where
  user : db.ActiveUser payload.sub
  tenant : db.ActiveTenant payload.tid
  membership : ∃ m ∈ db.memberships, m.key = (payload.sub, payload.tid) ∧ m.role = payload.role

/-- What has to hold for the token to fit: that the tenant of the membership that a sign-in chooses is active, that
the user who switches is active, and that a refresh token is still one of an active member of an active tenant. -/
def Current (cfg : Config) (ctx : Ctx) (db : Database) : Op → Prop
  | .login email _ =>
    ∀ user m, db.getByEmail email = some user → Chosen db.memberships user.rid m → db.ActiveTenant m.tenantRid
  | .refresh raw =>
    ∀ token, db.getByHash (cfg.sha256 raw) = some token → db.ActiveUser token.userRid ∧
      db.ActiveTenant token.tenantRid ∧ (token.userRid, token.tenantRid) ∈ db.memberships.map Membership.key
  | .switchTenant _ => db.ActiveUser ctx.userId
  | .ssoCallback idp =>
    ∀ userinfo tenant, idp = .ok userinfo → db.newestTenant = some tenant →
      (db.getByEmail userinfo.email = none → db.ActiveTenant tenant.rid) ∧
      ∀ user m, db.getByEmail userinfo.email = some user →
        Chosen (db.joined ctx.now user.rid tenant.rid) user.rid m → db.ActiveTenant m.tenantRid
  | _ => True

/-- The token that the call returns fits exactly under the condition. -/
def Issues (cfg : Config) (ctx : Ctx) (s : Server) (op : Op) {α : Type} (token : α → Option TokenPayload)
    (p : Session α) : Prop :=
  p.Ensures s (fun r s' => ∀ payload ∈ token r, payload.Fits s'.db ↔ Current cfg ctx s.db op) fun _ _ => True

section Issuing
variable {cfg : Config} {ctx : Ctx} {s : Server}

theorem Chosen.unique {ms : List Membership} {u : String} {m m' : Membership} (h : Chosen ms u m)
    (h' : Chosen ms u m') : m = m' := by
  rcases h with h | ⟨hnone, h⟩ <;> rcases h' with h' | ⟨hnone', h'⟩
  · rw [h] at h'
    exact List.head_eq_of_cons_eq h'
  · rw [h] at hnone'
    cases hnone'
  · rw [h'] at hnone
    cases hnone
  · rw [h] at h'
    exact Option.some.inj h'

theorem active_of_ne {status : Status} (h : status ≠ .disabled) : status = .active := by
  cases status with
  | active => rfl
  | disabled => exact absurd rfl h

/-- A token issued for a membership of an active user fits if and only if the tenant is active. -/
theorem fits_iff_tenant {db : Database} {user : User} {m : Membership} {payload : TokenPayload}
    (hu : user ∈ db.users) (hactive : user.status ≠ .disabled) (hm : m ∈ db.memberships) (hmu : m.userRid = user.rid)
    (hsub : payload.sub = user.rid) (htid : payload.tid = m.tenantRid) (hrole : payload.role = m.role) :
    payload.Fits db ↔ db.ActiveTenant m.tenantRid := by
  constructor
  · intro h
    rw [← htid]
    exact h.tenant
  · intro h
    refine ⟨⟨user, hu, hsub.symm, active_of_ne hactive⟩, htid ▸ h, m, hm, ?_, hrole.symm⟩
    rw [Membership.key, hmu, hsub, htid]

/-- Issuing tokens leaves users, tenants and memberships alone. -/
theorem ensures_issueRefreshToken_tables (userRid tenantRid : String) :
    (issueRefreshToken cfg ctx userRid tenantRid).Ensures s (fun _ s' => s'.db.users = s.db.users ∧
      s'.db.tenants = s.db.tenants ∧ s'.db.memberships = s.db.memberships) fun _ _ => True := by
  simp only [issueRefreshToken, ensures_bind, ensures_flush, ensures_pure, implies_true, and_true]
  intro db hdb
  obtain ⟨husers, htenants, hmemberships, -⟩ := Database.insertRefreshToken_ok hdb
  exact ⟨husers, htenants, hmemberships⟩

theorem ensures_issueTokens_payload {user : User} {m : Membership} {jti : String} :
    (issueTokens cfg ctx user m jti).Ensures s (fun r s' => s'.db.users = s.db.users ∧
      s'.db.tenants = s.db.tenants ∧ s'.db.memberships = s.db.memberships ∧
      r.2.1.sub = user.rid ∧ r.2.1.tid = m.tenantRid ∧ r.2.1.role = m.role) fun _ _ => True := by
  simp only [issueTokens, ensures_bind, ensures_query, ensures_orRaise, ensures_enforce, ensures_pure, implies_true,
    and_true]
  intro tenant htenant
  obtain ⟨_, hrid⟩ := Database.getTenant_mem htenant
  refine (ensures_issueRefreshToken_tables user.rid tenant.rid).mono ?_ fun _ _ h => h
  rintro raw s' ⟨husers, htenants, hmemberships⟩
  exact ⟨husers, htenants, hmemberships, rfl, hrid, rfl⟩

theorem activeTenant_congr {db db' : Database} (h : db'.tenants = db.tenants) (rid : String) :
    db'.ActiveTenant rid ↔ db.ActiveTenant rid := by
  unfold Database.ActiveTenant
  rw [h]

theorem activeUser_congr {db db' : Database} (h : db'.users = db.users) (rid : String) :
    db'.ActiveUser rid ↔ db.ActiveUser rid := by
  unfold Database.ActiveUser
  rw [h]

theorem issues_login (email password : String) :
    Issues cfg ctx s (.login email password) (fun r => some r.2.1) (login cfg ctx email password) := by
  simp only [Issues, login, ensures_bind, ensures_query, ensures_orRaise, ensures_ofExcept, ensures_require,
    implies_true, and_true]
  intro user huser verified _ _ hactive
  refine (ensures_tokenMembership user.rid _).mono ?_ fun _ _ _ => trivial
  rintro m _ ⟨rfl, hchosen⟩
  refine ensures_issueTokens_payload.mono ?_ fun _ _ h => h
  rintro r s' ⟨husers, htenants, hmemberships, hsub, htid, hrole⟩ payload hpayload
  obtain rfl := Option.some.inj hpayload
  obtain ⟨hm, hmu⟩ := hchosen.mem
  have hu : user ∈ s'.db.users := husers ▸ (Database.getByEmail_mem huser).1
  rw [fits_iff_tenant hu hactive (hmemberships ▸ hm) hmu hsub htid hrole, activeTenant_congr htenants]
  constructor
  · intro h user' m' huser' hchosen'
    obtain rfl := Option.some.inj (huser.symm.trans huser')
    rwa [← hchosen.unique hchosen']
  · exact fun h => h user m huser hchosen

theorem issues_refresh (raw : String) :
    Issues cfg ctx s (.refresh raw) (fun r => some r.1) (refresh cfg ctx raw) := by
  simp only [Issues, refresh, ensures_bind, ensures_query, ensures_orRaise, ensures_ofExcept, ensures_require,
    ensures_execute, ensures_pure, implies_true, and_true]
  intro token htoken valid _ _
  refine (ensures_issueRefreshToken_tables token.userRid token.tenantRid).mono ?_ fun _ _ h => h
  rintro _ s' ⟨husers, htenants, hmemberships⟩ payload hpayload
  obtain rfl := Option.some.inj hpayload
  constructor
  · rintro ⟨hu, ht, m, hm, hkey, -⟩ token' htoken'
    obtain rfl := Option.some.inj (htoken.symm.trans htoken')
    rw [hmemberships] at hm
    exact ⟨(activeUser_congr husers _).mp hu, (activeTenant_congr htenants _).mp ht, List.mem_map.mpr ⟨m, hm, hkey⟩⟩
  · intro h
    obtain ⟨hu, ht, hmember⟩ := h token htoken
    refine ⟨(activeUser_congr husers _).mpr hu, (activeTenant_congr htenants _).mpr ht, ?_⟩
    obtain ⟨m, hm, hkey⟩ := List.mem_map.mp hmember
    cases hfound : s.db.getMembership token.userRid token.tenantRid with
    | none =>
      have hfound := List.find?_eq_none.mp hfound m hm
      simp [hkey] at hfound
    | some m' =>
      obtain ⟨hm', hkey'⟩ := Database.getMembership_mem hfound
      refine ⟨m', hmemberships ▸ hm', hkey', ?_⟩
      have hrevoked : Database.getMembership (s.db.revokeRefreshToken (cfg.sha256 raw) ctx.now) token.userRid
          token.tenantRid = some m' := hfound
      simp [issueAccessToken, hrevoked]

theorem issues_switchTenant (tenantRid : String) :
    Issues cfg ctx s (.switchTenant tenantRid) (fun r => some r.1) (switchTenant cfg ctx tenantRid) := by
  simp only [Issues, switchTenant, ensures_bind, ensures_query, ensures_orRaise, ensures_enforce, ensures_pure,
    implies_true, and_true]
  intro m hm tenant htenant
  obtain ⟨hmem, hkey⟩ := Database.getMembership_mem hm
  obtain ⟨hfound, hactive⟩ := Option.filter_eq_some_iff.mp htenant
  obtain ⟨ht, hrid⟩ := Database.getTenant_mem hfound
  refine (ensures_issueRefreshToken_tables ctx.userId tenant.rid).mono ?_ fun _ _ h => h
  rintro _ s' ⟨husers, htenants, hmemberships⟩ payload hpayload
  obtain rfl := Option.some.inj hpayload
  constructor
  · exact fun h => (activeUser_congr husers _).mp h.user
  · intro h
    refine ⟨(activeUser_congr husers _).mpr h, (activeTenant_congr htenants _).mpr ⟨tenant, ht, rfl, ?_⟩, m, ?_, ?_, rfl⟩
    · exact of_decide_eq_true hactive
    · exact hmemberships ▸ hmem
    · rw [hkey, hrid]
      rfl

/-- After provisioning, the memberships are those of `joined`, or the new user's one has been added. -/
theorem Provisioned.memberships {a a' : Authz} {tenantRid userRid : String}
    (h : Provisioned ctx a tenantRid userRid a') (hu : userRid ∈ a.users) :
    a'.memberships = if (userRid, tenantRid) ∈ a.memberships.map Membership.key then a.memberships
      else a.memberships ++ [⟨userRid, tenantRid, "member", false, ctx.now⟩] := by
  cases h with
  | existing hold => rw [if_pos hold]
  | member hnew => rw [if_neg hnew]
  | user hrid hnew => exact absurd hu hnew

theorem Provisioned.newMembership {a a' : Authz} {tenantRid userRid : String}
    (h : Provisioned ctx a tenantRid userRid a') (hu : userRid ∉ a.users) (hmembers : ∀ m ∈ a.memberships, m.userRid ∈ a.users)
    {m : Membership} (hm : Chosen a'.memberships userRid m) : m.tenantRid = tenantRid := by
  have hold : ∀ m ∈ a.memberships, m.userRid ≠ userRid := fun m hm he => hu (he ▸ hmembers m hm)
  obtain ⟨hmem, hmu⟩ := hm.mem
  cases h with
  | existing => exact absurd hmu (hold m hmem)
  | member | user =>
    rcases List.mem_append.mp hmem with hmem | hmem
    · exact absurd hmu (hold m hmem)
    · rw [List.mem_singleton.mp hmem]

theorem issues_ssoCallback (idp : Except Exc OidcUserInfo) :
    Issues cfg ctx s (.ssoCallback idp) (fun r => some r.2.1) (ssoCallback cfg ctx idp) := by
  simp only [Issues, ssoCallback, ensures_bind, ensures_query, ensures_orRaise, ensures_ofExcept, ensures_require,
    implies_true, and_true]
  rintro _ userinfo rfl _ tenant htenant
  refine (ensures_provisionUser userinfo tenant.rid).mono ?_ fun _ _ _ => trivial
  rintro user s₁ ⟨hu, hprovisioned, hemail, htenants₁, -⟩
  intro hactive
  refine (ensures_tokenMembership user.rid _).mono ?_ fun _ _ _ => trivial
  rintro m s₂ ⟨rfl, hchosen⟩
  refine ensures_issueTokens_payload.mono ?_ fun _ _ h => h
  rintro r s' ⟨husers, htenants, hmemberships, hsub, htid, hrole⟩ payload hpayload
  obtain rfl := Option.some.inj hpayload
  obtain ⟨hm, hmu⟩ := hchosen.mem
  rw [fits_iff_tenant (husers ▸ hu) hactive (hmemberships ▸ hm) hmu hsub htid hrole,
    activeTenant_congr (htenants.trans htenants₁)]
  rcases hemail with ⟨user₀, hfound, hrid, -⟩ | ⟨hnone, hnew⟩
  · have hold : user.rid ∈ s.authz.users := hrid ▸ List.mem_map_of_mem (Database.getByEmail_mem hfound).1
    have hjoined : s₂.db.memberships = s.db.joined ctx.now user.rid tenant.rid := by
      refine (hprovisioned.memberships hold).trans ?_
      unfold Database.joined
      congr
    rw [hjoined] at hchosen
    constructor
    · intro h userinfo' tenant' hidp htenant'
      obtain rfl := Except.ok.inj hidp
      obtain rfl := Option.some.inj (htenant.symm.trans htenant')
      refine ⟨fun hnone => ?_, fun user' m' huser' hchosen' => ?_⟩
      · rw [hfound] at hnone
        cases hnone
      · obtain rfl := Option.some.inj (hfound.symm.trans huser')
        rw [hrid] at hchosen'
        rwa [← hchosen.unique hchosen']
    · exact fun h => (h userinfo tenant rfl htenant).2 user₀ m hfound (hrid ▸ hchosen)
  · rw [hprovisioned.newMembership hnew s.db.membershipUsers hchosen]
    constructor
    · intro h userinfo' tenant' hidp htenant'
      obtain rfl := Except.ok.inj hidp
      obtain rfl := Option.some.inj (htenant.symm.trans htenant')
      refine ⟨fun _ => h, fun user' m' huser' => ?_⟩
      rw [hnone] at huser'
      cases huser'
    · exact fun h => (h userinfo tenant rfl htenant).1 hnone

theorem issues_op (op : Op) : Issues cfg ctx s op Reply.accessToken (op.run cfg ctx) := by
  cases op <;> simp only [Op.run, Issues, ensures_bind, ensures_pure]
  case login email password => exact issues_login email password
  case refresh raw => exact issues_refresh raw
  case ssoCallback idp => exact issues_ssoCallback idp
  case switchTenant tenantRid => exact issues_switchTenant tenantRid
  all_goals exact Ensures.trivial.mono (fun _ _ _ payload hpayload => absurd hpayload (Option.not_mem_none payload)) fun _ _ h => h

end Issuing

/-- A token fits the tables when it is issued exactly if what the method leaves unchecked holds. -/
theorem token_fits_iff {cfg : Config} {ctx : Ctx} {s s' : Server} {op : Op} {reply : Reply} {payload : TokenPayload}
    (hcall : serve (op.run cfg ctx) s = (.ok reply, s')) (htoken : reply.accessToken = some payload) :
    payload.Fits s'.db ↔ Current cfg ctx s.db op := by
  unfold serve at hcall
  split at hcall
  · rename_i hrun
    obtain ⟨hreply, rfl⟩ := Prod.mk.inj hcall
    obtain rfl := Except.ok.inj hreply
    exact (issues_op op).ok hrun payload htoken
  · cases hcall

theorem returned_of_token {r : Except Exc Reply × Server} {payload : TokenPayload}
    (h : r.1.toOption.bind Reply.accessToken = some payload) :
    ∃ reply, r = (.ok reply, r.2) ∧ reply.accessToken = some payload := by
  obtain ⟨reply | e, s'⟩ := r
  · cases h
  · exact ⟨_, rfl, h⟩

def adminLogin : Session Reply := Op.run .plain (.plain "" "" 2) (.login "admin@example.com" "admin123")

def adminToken : TokenPayload := ⟨"ri.user.i", "ri.tenant.", "admin", "nn", 2, 902⟩

theorem token_fits_iff_adminLogin :
    adminToken.Fits (serve adminLogin (Server.seeded .plain (.plain "" "" 0))).2.db ↔
      Current .plain (.plain "" "" 2) (Server.seeded .plain (.plain "" "" 0)).db
        (.login "admin@example.com" "admin123") := by
  have hissued : (serve adminLogin (Server.seeded .plain (.plain "" "" 0))).1.toOption.bind Reply.accessToken =
      some adminToken := by decide +kernel
  obtain ⟨reply, hcall, htoken⟩ := returned_of_token hissued
  exact token_fits_iff hcall htoken

/-- The tenant of the admin has been deleted. -/
def tenantDeleted : Server :=
  runFrom (Server.next .plain) (Server.seeded .plain (.plain "" "" 0))
    [.call (.plain "ri.user.i" "ri.tenant." 1) (.deleteTenant "ri.tenant.")]

/-- A login still issues a token for the deleted tenant. -/
theorem token_unfit : Reachable .plain tenantDeleted ∧ ∃ reply s',
    serve adminLogin tenantDeleted = (.ok reply, s') ∧ reply.accessToken = some adminToken ∧ ¬ adminToken.Fits s'.db := by
  have hstart : (booted .plain (.plain "" "" 0) (Server.empty .plain)).1 = .ok () := by decide +kernel
  have hreach : Reachable .plain tenantDeleted := by
    unfold tenantDeleted
    exact ⟨_, _, hstart, rfl⟩
  have hissued : (serve adminLogin tenantDeleted).1.toOption.bind Reply.accessToken = some adminToken := by
    decide +kernel
  obtain ⟨reply, hcall, htoken⟩ := returned_of_token hissued
  have hdisabled : ∀ t ∈ (serve adminLogin tenantDeleted).2.db.tenants, t.rid = "ri.tenant." → t.status ≠ .active := by
    decide +kernel
  refine ⟨hreach, reply, _, hcall, htoken, fun hfits => ?_⟩
  obtain ⟨t, ht, hrid, hactive⟩ := hfits.tenant
  exact hdisabled t ht hrid hactive

end Lingshu.Setting
