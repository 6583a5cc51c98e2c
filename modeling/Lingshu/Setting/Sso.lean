import Lingshu.Setting.Effects

/-! # Single sign-on

`sso_authorize` and `sso_callback` as messages of any browsers, in any order, among other calls. -/
namespace Lingshu.Setting
open Interaction Proc
set_option autoImplicit false

/-! ## The identity provider -/

/-- What the identity provider answers when a call asks it. -/
structure Idp where
  /-- The `authorization_endpoint` of its discovery document. -/
  authorizationEndpoint : Except Exc String
  /-- The `access_token` that its token endpoint returns for a code. -/
  token : String → Except Exc (Option String)
  userinfo : String → Except Exc OidcUserInfo

/-- An authorization URL before its parameters are encoded. -/
structure AuthorizationUrl where
  endpoint : String
  params : List (String × String)

structure OidcConfig where
  clientId : String
  redirectUri : String
  scopes : List String

/-- `get_authorization_url`. -/
def Idp.getAuthorizationUrl (idp : Idp) (oidc : OidcConfig) (state nonce : String) : Except Exc AuthorizationUrl :=
  idp.authorizationEndpoint.map fun endpoint => ⟨endpoint,
    [("response_type", "code"), ("client_id", oidc.clientId), ("redirect_uri", oidc.redirectUri),
      ("scope", String.intercalate " " oidc.scopes), ("state", state), ("nonce", nonce)]⟩

/-- `exchange_code`, which does not send the state. -/
def Idp.exchangeCode (idp : Idp) (code _state : String) : Except Exc (Option String) := idp.token code

/-- The user info that `sso_callback` goes on with. -/
def Idp.exchange (idp : Idp) (code state : String) : Except Exc OidcUserInfo :=
  match idp.exchangeCode code state with
  | .ok accessToken => idp.userinfo (accessToken.getD "")
  | .error e => .error e

/-- `sso_authorize`, for what `generate_state` and `generate_nonce` return. -/
def ssoAuthorize (cfg : Config) (oidc : OidcConfig) (idp : Idp) (state nonce : String) :
    Except Exc (AuthorizationUrl × String) :=
  if cfg.ssoEnabled then (idp.getAuthorizationUrl oidc state nonce).map fun url => (url, state)
  else .error (.app .commonInvalidInput "SSO is not configured")

/-! ## Runs -/

inductive SsoEvent where
  | authorize (idp : Idp) (state nonce : String)
  | callback (ctx : Ctx) (idp : Idp) (code state : String)
  | other (e : Event) (h : ∀ ctx exchanged, e ≠ .call ctx (.ssoCallback exchanged))

/-- The server, and what has happened: the states that were issued, and those of the callbacks that succeeded. -/
structure SsoRun where
  server : Server
  issued : List String
  used : List String

/-- The server does not look at what was issued. -/
def SsoRun.next (cfg : Config) (oidc : OidcConfig) (w : SsoRun) : SsoEvent → SsoRun
  | .authorize idp state nonce =>
    match ssoAuthorize cfg oidc idp state nonce with
    | .ok (_, state) => { w with issued := w.issued ++ [state] }
    | .error _ => w
  | .callback ctx idp code state =>
    match serve (ssoCallback cfg ctx (idp.exchange code state)) w.server with
    | (.ok _, server) => { w with server := server, used := w.used ++ [state] }
    | (.error _, server) => { w with server := server }
  | .other e _ => { w with server := w.server.next cfg e }

/-- A callback succeeds only with a state that was issued and has not been used. -/
def AnswersOurs (cfg : Config) (w : SsoRun) : SsoEvent → Prop
  | .callback ctx idp code state =>
    (∃ login, (serve (ssoCallback cfg ctx (idp.exchange code state)) w.server).1 = .ok login) →
      state ∈ w.issued ∧ state ∉ w.used
  | _ => True

/-- The account of the email may sign in: it is new, or not disabled and with at most one default tenant. -/
def Database.LetsIn (db : Database) (ctx : Ctx) (email : String) : Prop :=
  match db.getByEmail email with
  | some user => user.status ≠ .disabled ∧
      (db.memberships.filter fun m => decide (m.userRid = user.rid) && m.isDefault).length ≤ 1
  | none => generateRid "user" (ctx.uuids 0) ∉ db.users.map User.rid

/-- What `sso_callback` asks for. -/
def Welcomes (cfg : Config) (ctx : Ctx) (db : Database) (exchanged : Except Exc OidcUserInfo) : Prop :=
  cfg.ssoEnabled = true ∧ ∃ userinfo, exchanged = .ok userinfo ∧ userinfo.email ≠ "" ∧ db.newestTenant ≠ none ∧
    db.LetsIn ctx userinfo.email ∧ ctx.FreshToken cfg db

/-- A callback without a state of ours lacks something else as well. -/
def RefusedOtherwise (cfg : Config) (w : SsoRun) : SsoEvent → Prop
  | .callback ctx idp code state =>
    (state ∈ w.issued ∧ state ∉ w.used) ∨ ¬ Welcomes cfg ctx w.server.db (idp.exchange code state)
  | _ => True

/-! ## When a callback succeeds -/

section Callback
variable {cfg : Config} {ctx : Ctx} {s : Server}

@[simp] theorem ensures_flush_returns {f : Database → Except Exc Database} {Q : Unit → Server → Prop} :
    (flush f).Ensures s Q (fun _ _ => False) ↔ ∃ db, f s.db = .ok db ∧ Q () { s with db := db } := by
  rw [ensures_flush]
  cases f s.db <;> simp

namespace Database
variable {db : Database}

theorem getByEmail_eq_none {email : String} : db.getByEmail email = none ↔ email ∉ db.users.map User.email := by
  simp [getByEmail]

theorem getMembership_eq_none {userRid tenantRid : String} :
    db.getMembership userRid tenantRid = none ↔ (userRid, tenantRid) ∉ db.memberships.map Membership.key := by
  simp [getMembership]

theorem insertUser_returns {u : User} (hrid : u.rid ∉ db.users.map User.rid)
    (hemail : u.email ∉ db.users.map User.email) : ∃ db', db.insertUser u = .ok db' :=
  ⟨_, dif_pos ⟨(nodup_map_concat db.userKeys).mpr hrid, (nodup_map_concat db.emails).mpr hemail⟩⟩

theorem insertMembership_returns {m : Membership} (hnew : m.key ∉ db.memberships.map Membership.key)
    (hu : m.userRid ∈ db.users.map User.rid) (ht : m.tenantRid ∈ db.tenants.map Tenant.rid) :
    ∃ db', db.insertMembership m = .ok db' :=
  ⟨_, dif_pos ⟨(nodup_map_concat db.membershipKeys).mpr hnew, hu, ht⟩⟩

theorem insertRefreshToken_returns_iff {k : RefreshToken} (hu : k.userRid ∈ db.users.map User.rid)
    (ht : k.tenantRid ∈ db.tenants.map Tenant.rid) :
    (∃ db', db.insertRefreshToken k = .ok db') ↔ k.tokenHash ∉ db.refreshTokens.map RefreshToken.tokenHash := by
  rw [← nodup_map_concat db.tokenKeys, insertRefreshToken]
  by_cases h : ((db.refreshTokens ++ [k]).map RefreshToken.tokenHash).Nodup
  · rw [dif_pos ⟨h, hu, ht⟩]
    exact iff_of_true ⟨_, rfl⟩ h
  · rw [dif_neg fun hall => h hall.1]
    exact iff_of_false (by simp) h

end Database

theorem returns_updateDisplayName {user : User} (hu : user ∈ s.db.users) (name : String) :
    (updateDisplayName ctx user name).Returns s := by
  unfold updateDisplayName
  split
  · trivial
  · rw [returns_bind]
    simp only [ensures_execute, returns_bind, ensures_query]
    refine ensures_orRaise_returns.mpr ?_
    have hmem : user.rid ∈ (s.db.updateUser user.rid { displayName := some name } ctx.now).users.map User.rid := by
      simpa [Database.updateUser] using ⟨user, hu, rfl⟩
    obtain ⟨u, hu, hrid⟩ := List.mem_map.mp hmem
    obtain ⟨found, hfound⟩ := Option.ne_none_iff_exists'.mp fun hnone : Database.getUser _ user.rid = none =>
      absurd hrid (by simpa using List.find?_eq_none.mp hnone u hu)
    exact ⟨found, hfound, trivial⟩

theorem returns_ensureMembership {userRid tenantRid : String} (hu : userRid ∈ s.db.users.map User.rid)
    (ht : tenantRid ∈ s.db.tenants.map Tenant.rid) : (ensureMembership ctx userRid tenantRid).Returns s := by
  unfold ensureMembership
  rw [returns_bind, ensures_query]
  split
  · rename_i hnone
    obtain ⟨db, hdb⟩ := Database.insertMembership_returns (m := ⟨userRid, tenantRid, "member", false, ctx.now⟩)
      (Database.getMembership_eq_none.mp hnone) hu ht
    exact ensures_flush_returns.mpr ⟨db, hdb, trivial⟩
  · trivial

/-- Provisioning fails only on a new user whose rid is taken. -/
theorem returns_provisionUser_iff {tenantRid : String} (ht : tenantRid ∈ s.db.tenants.map Tenant.rid)
    (userinfo : OidcUserInfo) : (provisionUser ctx userinfo tenantRid).Returns s ↔
      (s.db.getByEmail userinfo.email = none → generateRid "user" (ctx.uuids 0) ∉ s.db.users.map User.rid) := by
  rw [provisionUser, returns_bind, ensures_query]
  cases huser : s.db.getByEmail userinfo.email with
  | some user =>
    refine iff_of_true ?_ fun hnone => absurd hnone (Option.some_ne_none user)
    obtain ⟨hmem, -⟩ := Database.getByEmail_mem huser
    have hreturns : (updateDisplayName ctx user userinfo.name).Returns s := returns_updateDisplayName hmem _
    refine returns_bind.mpr ((hreturns.ensures (ensures_updateDisplayName user userinfo.name hmem)).mono ?_
      fun _ _ h => h)
    rintro u s₁ ⟨hu, -, -, -, htenants, -⟩
    refine returns_bind.mpr (ensures_const.mpr ⟨?_, trivial⟩)
    exact returns_ensureMembership (List.mem_map_of_mem hu) (htenants ▸ ht)
  | none =>
    simp only [provisionNewUser, returns_bind, ensures_flush_returns, forall_const]
    constructor
    · rintro ⟨db, hdb, -⟩
      exact (Database.insertUser_ok hdb).1
    · intro hrid
      obtain ⟨db, hdb⟩ := Database.insertUser_returns
        (u := ⟨generateRid "user" (ctx.uuids 0), userinfo.email, userinfo.name, "SSO_MANAGED", .active, ctx.now,
          ctx.now⟩)
        hrid (Database.getByEmail_eq_none.mp huser)
      obtain ⟨-, husers, htenants, hmemberships, -, -⟩ := Database.insertUser_ok hdb
      have hnew : (⟨generateRid "user" (ctx.uuids 0), tenantRid, "member", true, ctx.now⟩ : Membership).key ∉
          db.memberships.map Membership.key := by
        rw [hmemberships]
        intro hkey
        obtain ⟨m, hm, hmkey⟩ := List.mem_map.mp hkey
        have huser : m.userRid = generateRid "user" (ctx.uuids 0) := congrArg Prod.fst hmkey
        exact hrid (huser ▸ s.db.membershipUsers m hm)
      obtain ⟨db', hdb'⟩ := Database.insertMembership_returns hnew (by simp [husers]) (htenants ▸ ht)
      exact ⟨db, hdb, db', hdb', trivial⟩

theorem ensures_tokenMembership_returns {userRid message : String} {Q : Membership → Server → Prop} :
    (tokenMembership userRid message).Ensures s Q (fun _ _ => False) ↔
      ∃ m, Chosen s.db.memberships userRid m ∧ Q m s := by
  simp only [tokenMembership, ensures_bind, ensures_query, ensures_ofExcept_returns]
  unfold Database.getDefaultTenant Chosen
  split
  · rename_i hnone
    simp only [Except.ok.injEq, exists_eq_left', Option.none_or, Database.listByUser, hnone]
    rw [ensures_orRaise_returns]
    simp
  · rename_i m hone
    simp only [Except.ok.injEq, exists_eq_left', Option.some_or, hone]
    rw [ensures_orRaise_returns]
    simp
  · rename_i hnone hone
    refine iff_of_false (by simp) ?_
    rintro ⟨m, h | h, -⟩
    · exact hone m h
    · exact hnone h.1

/-- A member has a membership that decides the tenant unless two are the default. -/
theorem exists_chosen_iff {memberships : List Membership} {userRid : String}
    (hmember : ∃ m ∈ memberships, m.userRid = userRid) : (∃ m, Chosen memberships userRid m) ↔
      (memberships.filter fun m => decide (m.userRid = userRid) && m.isDefault).length ≤ 1 := by
  cases hdefaults : memberships.filter fun m => decide (m.userRid = userRid) && m.isDefault with
  | nil =>
    refine iff_of_true ?_ (Nat.zero_le 1)
    obtain ⟨m, hm, hu⟩ := hmember
    have hmem : m ∈ memberships.filter fun m => decide (m.userRid = userRid) :=
      List.mem_filter.mpr ⟨hm, decide_eq_true hu⟩
    exact ⟨_, .inr ⟨hdefaults, List.head?_eq_some_head (List.ne_nil_of_mem hmem)⟩⟩
  | cons m rest =>
    cases rest with
    | nil => exact iff_of_true ⟨m, .inl hdefaults⟩ le_rfl
    | cons _ _ =>
      refine iff_of_false ?_ (by simp)
      rintro ⟨_, h | h⟩
      · rw [hdefaults] at h
        cases h
      · rw [hdefaults] at h
        cases h.1

theorem returns_issueTokens_iff {user : User} {m : Membership} {jti : String} (hu : user.rid ∈ s.db.users.map User.rid)
    (hm : m ∈ s.db.memberships) : (issueTokens cfg ctx user m jti).Returns s ↔ ctx.FreshToken cfg s.db := by
  obtain ⟨tenant, htenant, hrid⟩ := List.mem_map.mp (s.db.membershipTenants m hm)
  obtain ⟨found, hfound⟩ := Option.ne_none_iff_exists'.mp fun hnone : s.db.getTenant m.tenantRid = none =>
    absurd hrid (by simpa using List.find?_eq_none.mp hnone tenant htenant)
  simp only [issueTokens, issueRefreshToken, returns_bind, ensures_bind, ensures_query, ensures_orRaise_returns,
    ensures_enforce, ensures_flush_returns, ensures_pure, hfound]
  have ht : found.rid ∈ s.db.tenants.map Tenant.rid := List.mem_map_of_mem (Database.getTenant_mem hfound).1
  refine Iff.trans ?_ (Database.insertRefreshToken_returns_iff
    (k := ⟨cfg.sha256 ctx.rawToken, user.rid, found.rid, ctx.now + cfg.refreshTtl, none⟩) hu ht)
  simp

theorem ensures_provisionUser_status (userinfo : OidcUserInfo) (tenantRid : String) :
    (provisionUser ctx userinfo tenantRid).Ensures s
      (fun user _ => s.db.getByEmail userinfo.email = none → user.status = .active) fun _ _ => True := by
  simp only [provisionUser, ensures_bind, ensures_query]
  split
  · rename_i user huser
    exact Ensures.trivial.mono (fun _ _ _ hnone => absurd (huser.symm.trans hnone) (by simp)) fun _ _ h => h
  · simp only [provisionNewUser, ensures_bind, ensures_flush, ensures_pure, implies_true, and_self]

/-- The memberships of a provisioned user are the old ones, at most with a new one that is the default of a new user. -/
theorem Provisioned.joins {a a' : Authz} {tenantRid userRid : String} (h : Provisioned ctx a tenantRid userRid a') :
    (∃ m ∈ a'.memberships, m.userRid = userRid) ∧
      (a'.memberships = a.memberships ∨ ∃ isDefault, (isDefault = true → userRid ∉ a.users) ∧
        a'.memberships = a.memberships ++ [⟨userRid, tenantRid, "member", isDefault, ctx.now⟩]) := by
  cases h with
  | existing hold =>
    obtain ⟨m, hm, hkey⟩ := List.mem_map.mp hold
    exact ⟨⟨m, hm, congrArg Prod.fst hkey⟩, .inl rfl⟩
  | member => exact ⟨⟨_, List.mem_append_right _ (List.mem_singleton_self _), rfl⟩, .inr ⟨false, nofun, rfl⟩⟩
  | user hrid hnew =>
    exact ⟨⟨_, List.mem_append_right _ (List.mem_singleton_self _), rfl⟩, .inr ⟨true, fun _ => hnew, rfl⟩⟩

/-- The provisioned user gets in iff the account of the email does. -/
theorem provisioned_iff {tenantRid : String} {user : User} {userinfo : OidcUserInfo} {s₁ : Server}
    (hrid : s.db.getByEmail userinfo.email = none → generateRid "user" (ctx.uuids 0) ∉ s.db.users.map User.rid)
    (hprovisioned : Provisioned ctx s.authz tenantRid user.rid s₁.authz)
    (hemail : (∃ u, s.db.getByEmail userinfo.email = some u ∧ u.rid = user.rid ∧ u.status = user.status) ∨
      s.db.getByEmail userinfo.email = none ∧ user.rid ∉ s.authz.users)
    (hstatus : s.db.getByEmail userinfo.email = none → user.status = .active) :
    (user.status ≠ .disabled ∧ ∃ m, Chosen s₁.db.memberships user.rid m) ↔ s.db.LetsIn ctx userinfo.email := by
  obtain ⟨hmember, hjoined⟩ : (∃ m ∈ s₁.db.memberships, m.userRid = user.rid) ∧
      (s₁.db.memberships = s.db.memberships ∨ ∃ isDefault, (isDefault = true → user.rid ∉ s.authz.users) ∧
        s₁.db.memberships =
          s.db.memberships ++ [(⟨user.rid, tenantRid, "member", isDefault, ctx.now⟩ : Membership)]) :=
    hprovisioned.joins
  rw [exists_chosen_iff hmember, Database.LetsIn]
  rcases hemail with ⟨u, hfound, hu, hsame⟩ | ⟨hnone, hnew⟩
  · have hold : user.rid ∈ s.authz.users := hu ▸ List.mem_map_of_mem (Database.getByEmail_mem hfound).1
    have hcount : (s₁.db.memberships.filter fun m => decide (m.userRid = user.rid) && m.isDefault) =
        s.db.memberships.filter fun m => decide (m.userRid = user.rid) && m.isDefault := by
      rcases hjoined with hjoined | ⟨isDefault, hdefault, hjoined⟩
      · exact congrArg _ hjoined
      · have hfalse : isDefault = false := Bool.eq_false_iff.mpr fun h => hdefault h hold
        rw [hjoined, List.filter_append]
        simp [hfalse]
    simp only [hfound, hcount, hu, hsame]
  · simp only [hnone, hstatus hnone]
    refine iff_of_true ⟨by decide, ?_⟩ (hrid hnone)
    have hempty : (s.db.memberships.filter fun m => decide (m.userRid = user.rid) && m.isDefault) = [] := by
      refine List.filter_eq_nil_iff.mpr fun m hm h => hnew ?_
      rw [Bool.and_eq_true, decide_eq_true_iff] at h
      exact h.1 ▸ s.db.membershipUsers m hm
    rcases hjoined with hjoined | ⟨isDefault, -, hjoined⟩
    · rw [hjoined, hempty]
      exact Nat.zero_le 1
    · rw [hjoined, List.filter_append, hempty]
      exact List.length_filter_le _ _

theorem returns_ssoCallback_iff (exchanged : Except Exc OidcUserInfo) :
    (ssoCallback cfg ctx exchanged).Returns s ↔ Welcomes cfg ctx s.db exchanged := by
  simp only [ssoCallback, returns_bind, ensures_query, ensures_require_returns, ensures_orRaise_returns,
    ensures_ofExcept_returns, ensures_tokenMembership_returns]
  refine and_congr_right fun _ => exists_congr fun userinfo => and_congr_right fun _ => and_congr_right fun _ => ?_
  cases hnewest : s.db.newestTenant with
  | none => simp
  | some tenant =>
    have ht : tenant.rid ∈ s.db.tenants.map Tenant.rid := List.mem_map_of_mem (newestTenant_mem hnewest)
    simp only [Option.some.injEq, exists_eq_left', ne_eq, reduceCtorEq, not_false_eq_true, true_and]
    by_cases hrid : s.db.getByEmail userinfo.email = none → generateRid "user" (ctx.uuids 0) ∉ s.db.users.map User.rid
    · have hreturns := (returns_provisionUser_iff ht userinfo).mpr hrid
      refine (ensures_congr ((ensures_provisionUser userinfo tenant.rid).and
        (ensures_provisionUser_status userinfo tenant.rid)) ?_ fun _ _ _ => Iff.rfl).trans
          (ensures_const.trans (and_iff_right hreturns))
      rintro user s₁ ⟨⟨hu, hprovisioned, hemail, -, htokens, -⟩, hstatus⟩
      have hfresh : ctx.FreshToken cfg s₁.db ↔ ctx.FreshToken cfg s.db := by
        rw [Ctx.FreshToken, htokens, Ctx.FreshToken]
      rw [← provisioned_iff hrid hprovisioned hemail hstatus, and_assoc, ← exists_and_right]
      refine and_congr_right fun _ => exists_congr fun m => and_congr_right fun hm => ?_
      exact (returns_issueTokens_iff (List.mem_map_of_mem hu) hm.mem.1).trans hfresh
    · -- The rid of a new user is taken: provisioning raises.
      refine iff_of_false (fun h => hrid ?_) fun h => hrid fun hnone => ?_
      · exact (returns_provisionUser_iff ht userinfo).mp (h.mono (fun _ _ _ => trivial) fun _ _ h => h)
      · simpa [Database.LetsIn, hnone] using h.1

/-- A callback succeeds iff it brings what `sso_callback` asks for, whatever its state. -/
theorem callback_succeeds_iff (exchanged : Except Exc OidcUserInfo) :
    (∃ login, (serve (ssoCallback cfg ctx exchanged) s).1 = .ok login) ↔ Welcomes cfg ctx s.db exchanged := by
  rw [← returns_ssoCallback_iff, returns_iff]
  unfold serve
  split <;> simp [*]

end Callback

/-- The callbacks of a run answer our requests iff those that do not lack something else. -/
theorem answersOurs_iff (cfg : Config) (oidc : OidcConfig) (s : Server) (es : List SsoEvent) :
    StepsMeet (SsoRun.next cfg oidc) (AnswersOurs cfg) ⟨s, [], []⟩ es ↔
      StepsMeet (SsoRun.next cfg oidc) (RefusedOtherwise cfg) ⟨s, [], []⟩ es := by
  have hstep : ∀ w e, AnswersOurs cfg w e ↔ RefusedOtherwise cfg w e := by
    intro w e
    cases e with
    | callback ctx idp code state =>
      rw [AnswersOurs, RefusedOtherwise, callback_succeeds_iff, imp_iff_or_not]
    | authorize | other => exact Iff.rfl
  exact ⟨.mono fun w e => (hstep w e).mp, .mono fun w e => (hstep w e).mpr⟩

/-- An identity provider that knows one account. -/
def oneAccount : Idp where
  authorizationEndpoint := .ok "https://idp.example.com/auth"
  token _ := .ok (some "t")
  userinfo _ := .ok ⟨"u", "u@example.com", "U"⟩

theorem not_answersOurs {cfg : Config} {ctx : Ctx} {idp : Idp} (w : SsoRun) (code state : String)
    (hwelcome : Welcomes cfg ctx w.server.db (idp.exchange code state)) (hstate : state ∉ w.issued) :
    ¬ AnswersOurs cfg w (.callback ctx idp code state) :=
  fun h => hstate (h ((callback_succeeds_iff _).mpr hwelcome)).1

theorem welcomes_oneAccount : Welcomes .plain (.plain "" "" 1) (Server.seeded .plain (.plain "" "" 0)).db
    (oneAccount.exchange "code" "forged") := by
  have hnew : (Server.seeded .plain (.plain "" "" 0)).db.getByEmail "u@example.com" = none := by decide +kernel
  have hrid : generateRid "user" ((Ctx.plain "" "" 1).uuids 0) ∉
      (Server.seeded .plain (.plain "" "" 0)).db.users.map User.rid := by decide +kernel
  refine ⟨rfl, ⟨"u", "u@example.com", "U"⟩, rfl, by decide, by decide +kernel, ?_, by decide +kernel⟩
  rw [Database.LetsIn, hnew]
  exact hrid

/-- A state that nobody has issued is accepted. -/
theorem forged_state_accepted :
    Welcomes .plain (.plain "" "" 1) (Server.seeded .plain (.plain "" "" 0)).db (oneAccount.exchange "code" "forged") ∧
    ¬ StepsMeet (SsoRun.next .plain ⟨"lingshu", "https://example.com/sso/callback", ["openid"]⟩) (AnswersOurs .plain)
      ⟨Server.seeded .plain (.plain "" "" 0), [], []⟩ [.callback (.plain "" "" 1) oneAccount "code" "forged"] := by
  refine ⟨welcomes_oneAccount, fun h => ?_⟩
  exact not_answersOurs ⟨Server.seeded .plain (.plain "" "" 0), [], []⟩ "code" "forged" welcomes_oneAccount
    List.not_mem_nil h.1

end Lingshu.Setting
