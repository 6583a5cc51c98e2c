import Lingshu.Log.Lapse
import Lingshu.Setting.Middleware
import Mathlib.Algebra.Order.Floor.Defs
import Mathlib.Data.Rat.Floor

/-! # Revoked access tokens

`BuiltinProvider` against the clock and a Redis whose keys have a time to live. Moments are in seconds, of which the
provider and the tokens know whole ones only. -/
namespace Lingshu.Setting
set_option autoImplicit false

abbrev Moment := ℚ

/-! ## The provider -/

/-- The claims of a token that the provider reads. -/
structure Claims where
  iss : Option String
  aud : Option String
  payload : TokenPayload

/-- `encode` and `decode` of authlib for the secret; `decode` raises a `JoseError` with a text. -/
structure Jwt where
  encode : Claims → String
  decode : String → Except String Claims

def providerClaims (payload : TokenPayload) : Claims := ⟨some "lingshu", some "lingshu", payload⟩

/-- The claims that `issue_access_token` encodes. -/
def issuedPayload (accessTtl : ℕ) (userRid tenantRid role jti : String) (now : Moment) : TokenPayload :=
  ⟨userRid, tenantRid, role, jti, ⌊now⌋₊, ⌊now + accessTtl⌋₊⟩

/-- `validate_token`; the library finds a token expired whose `exp` is less than the current second. -/
def validateToken (jwt : Jwt) (now : Moment) (token : String) : Except String TokenPayload :=
  match jwt.decode token with
  | .error e => .error ("Invalid token: " ++ e)
  | .ok claims =>
    if (claims.payload.exp : ℤ) < ⌊now⌋ then .error "Token expired"
    else if claims.iss ≠ some "lingshu" ∨ claims.aud ≠ some "lingshu" then
      .error "Invalid token issuer or audience"
    else .ok claims.payload

/-- `setex(key, ttl, value)`. -/
structure Setex where
  key : String
  ttl : ℤ
  value : String

def blacklistKey (jti : String) : String := "jwt_blacklist:" ++ jti

/-- What `revoke_token` sends, having read the clock. -/
def revocation (jti : String) (exp : Time) (now : Moment) : Option Setex :=
  let ttl := max (exp - ⌊now⌋) 0
  if 0 < ttl then some ⟨blacklistKey jti, ttl, "1"⟩ else none

/-- A call of `revoke_token`: when it reads the clock, when Redis executes its command, if there is one, and when it
returns, if it does. -/
structure RevokeCall where
  jti : String
  exp : Time
  read : Moment
  executed : Moment
  returned : Option Moment
  read_le : read ≤ executed
  executed_le : ∀ moment ∈ returned, executed ≤ moment

/-- What the call makes Redis keep, and how long. -/
def RevokeCall.record (call : RevokeCall) : Option (Log.Lapsing String Moment) :=
  (revocation call.jti call.exp call.read).map fun command =>
    ⟨command.key, call.executed, call.executed + command.ttl⟩

/-- `is_revoked`, after calls in the order in which Redis executes their commands; the tenant plays no part. -/
def isRevoked (calls : List RevokeCall) (now : Moment) (jti : String) : Bool :=
  (Log.standing (blacklistKey jti) now (calls.filterMap RevokeCall.record)).isSome

/-- The tokens of the calls that are on the blacklist at a moment. -/
def blacklistAt (calls : List RevokeCall) (now : Moment) : List String :=
  (calls.map RevokeCall.jti).filter (isRevoked calls now)

/-! ## What revocation is for -/

/-- The middleware refuses the token after a call for it has returned, in requests that look at the blacklist at most
`delay` after they have validated the token. -/
def Refuses (jwt : Jwt) (delay : Moment) (calls : List RevokeCall) (payload : TokenPayload) : Prop :=
  ∀ call ∈ calls, call.jti = payload.jti → ∀ returned ∈ call.returned,
    ∀ (devMode : Bool) (h : Headers) (now lookup : Moment),
      h.accessToken = some (jwt.encode (providerClaims payload)) →
      returned < now → now ≤ lookup → lookup ≤ now + delay →
      ∃ e, authenticate devMode (validateToken jwt now) (blacklistAt calls lookup) h = .error e

/-- The second that the call reads is before the last one of its token, so that it sends a command. -/
def RevokeCall.Records (call : RevokeCall) (payload : TokenPayload) : Prop :=
  call.jti = payload.jti ∧ ⌊call.read⌋ < payload.exp

/-- When a call has returned while the token is valid, some command for the token has been executed, and each of these
commands is executed at least one second and `delay` after the beginning of the second that was read, or has a
successor by the time its key lapses. -/
def Lasting (delay : Moment) (calls : List RevokeCall) (payload : TokenPayload) : Prop :=
  ∀ call ∈ calls, call.jti = payload.jti → ∀ returned ∈ call.returned,
    payload.exp + 1 ≤ returned ∨
    (∃ other ∈ calls, other.Records payload ∧ other.executed ≤ returned) ∧
    ∀ before other after, calls = before ++ other :: after → other.Records payload →
      ⌊other.read⌋ + 1 + delay ≤ other.executed ∨
      ∃ next ∈ after, next.Records payload ∧
        next.executed ≤ max (other.executed + ((payload.exp - ⌊other.read⌋ : ℤ) : Moment)) returned

/-- The library reads the token that it made of the payload. -/
structure Jwt.Reads (jwt : Jwt) (payload : TokenPayload) : Prop where
  decode_encode : jwt.decode (jwt.encode (providerClaims payload)) = .ok (providerClaims payload)
  encode_ne : jwt.encode (providerClaims payload) ≠ ""

section Revocation
variable {jwt : Jwt} {delay : Moment} {calls : List RevokeCall} {payload : TokenPayload} {call : RevokeCall}

/-- The record of a call for the token. -/
def RevokeCall.entry (payload : TokenPayload) (call : RevokeCall) : Log.Lapsing String Moment :=
  ⟨blacklistKey payload.jti, call.executed, call.executed + ((payload.exp - ⌊call.read⌋ : ℤ) : Moment)⟩

theorem issueAccessToken_eq (cfg : Config) (ctx : Ctx) (userRid tenantRid role jti : String) {now : Moment}
    (hnow : 0 ≤ now) (hctx : ctx.now = ⌊now⌋₊) : issueAccessToken cfg ctx userRid tenantRid role jti =
      issuedPayload cfg.accessTtl userRid tenantRid role jti now := by
  rw [issueAccessToken, issuedPayload, Nat.floor_add_natCast hnow, hctx]

theorem blacklistKey_inj {a b : String} : blacklistKey a = blacklistKey b ↔ a = b := by
  simp [blacklistKey, String.append_right_inj]

theorem record_eq_some_iff {e : Log.Lapsing String Moment} : call.record = some e ↔
    ⌊call.read⌋ < call.exp ∧
      e = ⟨blacklistKey call.jti, call.executed, call.executed + ((call.exp - ⌊call.read⌋ : ℤ) : Moment)⟩ := by
  rw [RevokeCall.record, revocation]
  by_cases h : ⌊call.read⌋ < call.exp
  · have hpos : 0 < (call.exp : ℤ) - ⌊call.read⌋ := Int.sub_pos_of_lt h
    simp [h, max_eq_left hpos.le, eq_comm]
  · have hnone : (call.exp : ℤ) - ⌊call.read⌋ ≤ 0 := Int.sub_nonpos_of_le (not_lt.mp h)
    simp [h, hnone]

/-- The records under the key of the token are those of the calls for it. -/
theorem record_iff (hexp : call.jti = payload.jti → call.exp = payload.exp) {e : Log.Lapsing String Moment} :
    call.record = some e ∧ e.key = blacklistKey payload.jti ↔ call.Records payload ∧ e = call.entry payload := by
  rw [record_eq_some_iff, RevokeCall.Records, RevokeCall.entry]
  constructor
  · rintro ⟨⟨hread, rfl⟩, hkey⟩
    have hjti := blacklistKey_inj.mp hkey
    rw [hexp hjti] at hread
    exact ⟨⟨hjti, hread⟩, by rw [hjti, hexp hjti]⟩
  · rintro ⟨⟨hjti, hread⟩, rfl⟩
    rw [hexp hjti, hjti]
    exact ⟨⟨hread, rfl⟩, rfl⟩

theorem exists_record_iff (hexp : ∀ call ∈ calls, call.jti = payload.jti → call.exp = payload.exp)
    (P : Log.Lapsing String Moment → Prop) :
    (∃ e ∈ calls.filterMap RevokeCall.record, e.key = blacklistKey payload.jti ∧ P e) ↔
      ∃ call ∈ calls, call.Records payload ∧ P (call.entry payload) := by
  constructor
  · rintro ⟨e, he, hkey, hP⟩
    obtain ⟨call, hcall, hrecord⟩ := List.mem_filterMap.mp he
    obtain ⟨hrecords, rfl⟩ := (record_iff (hexp call hcall)).mp ⟨hrecord, hkey⟩
    exact ⟨call, hcall, hrecords, hP⟩
  · rintro ⟨call, hcall, hrecords, hP⟩
    obtain ⟨hrecord, hkey⟩ := (record_iff (hexp call hcall)).mpr ⟨hrecords, rfl⟩
    exact ⟨_, List.mem_filterMap.mpr ⟨call, hcall, hrecord⟩, hkey, hP⟩

/-- Where a record stands in Redis' log is where its call stands. -/
theorem forall_record_iff (hexp : ∀ call ∈ calls, call.jti = payload.jti → call.exp = payload.exp)
    (P : Log.Lapsing String Moment → List (Log.Lapsing String Moment) → Prop) :
    (∀ pre e rest, calls.filterMap RevokeCall.record = pre ++ e :: rest → e.key = blacklistKey payload.jti → P e rest) ↔
      ∀ before call after, calls = before ++ call :: after → call.Records payload →
        P (call.entry payload) (after.filterMap RevokeCall.record) := by
  constructor
  · rintro h before call after rfl hrecords
    obtain ⟨hrecord, hkey⟩ := (record_iff (hexp call (by simp))).mpr ⟨hrecords, rfl⟩
    refine h (before.filterMap RevokeCall.record) _ _ ?_ hkey
    rw [List.filterMap_append, List.filterMap_cons_some hrecord]
  · intro h pre e rest hsplit hkey
    obtain ⟨before, tail, rfl, -, htail⟩ := List.filterMap_eq_append_iff.mp hsplit
    obtain ⟨skipped, call, after, rfl, -, hrecord, rfl⟩ := List.filterMap_eq_cons_iff.mp htail
    obtain ⟨hrecords, rfl⟩ := (record_iff (hexp call (by simp))).mp ⟨hrecord, hkey⟩
    exact h (before ++ skipped) call after (by simp) hrecords

theorem entry_write_le (h : call.Records payload) : (call.entry payload).write ≤ (call.entry payload).lapse := by
  have hpos : (0 : Moment) ≤ ((payload.exp - ⌊call.read⌋ : ℤ) : Moment) := by exact_mod_cast Int.sub_nonneg_of_le h.2.le
  exact le_add_of_nonneg_right hpos

theorem entry_lapse_iff : payload.exp + 1 + delay ≤ (call.entry payload).lapse ↔
    ⌊call.read⌋ + 1 + delay ≤ call.executed := by
  rw [RevokeCall.entry]
  push_cast
  constructor <;> intro h <;> linarith

theorem mem_blacklistAt {now : Moment} {jti : String} : jti ∈ blacklistAt calls now ↔ isRevoked calls now jti := by
  rw [blacklistAt, List.mem_filter]
  refine and_iff_right_of_imp fun h => ?_
  obtain ⟨e, he, -⟩ := Log.standing_isSome_iff.mp h
  obtain ⟨⟨hkey, -⟩, pre, rest, hlog, -⟩ := Log.latest_eq_some_iff.mp he
  obtain ⟨call, hcall, hrecord⟩ := List.mem_filterMap.mp (hlog ▸ List.mem_append_right _ List.mem_cons_self)
  obtain ⟨-, rfl⟩ := record_eq_some_iff.mp hrecord
  exact List.mem_map.mpr ⟨call, hcall, blacklistKey_inj.mp hkey⟩

theorem validateToken_issued (hreads : jwt.Reads payload) (now : Moment) :
    validateToken jwt now (jwt.encode (providerClaims payload)) =
      if (payload.exp : Moment) + 1 ≤ now then .error "Token expired" else .ok payload := by
  have hfloor : (payload.exp : ℤ) < ⌊now⌋ ↔ (payload.exp : Moment) + 1 ≤ now := by
    rw [← Int.add_one_le_iff, Int.le_floor]
    push_cast
    rfl
  rw [validateToken, hreads.decode_encode]
  simp [providerClaims, hfloor]

/-- Requests with the token are refused iff it has expired or is on the blacklist. -/
theorem authenticate_error_iff (hreads : jwt.Reads payload) {devMode : Bool} {h : Headers} {now lookup : Moment}
    (htoken : h.accessToken = some (jwt.encode (providerClaims payload))) :
    (∃ e, authenticate devMode (validateToken jwt now) (blacklistAt calls lookup) h = .error e) ↔
      payload.exp + 1 ≤ now ∨ isRevoked calls lookup payload.jti := by
  have hgiven : given h.accessToken = some (jwt.encode (providerClaims payload)) := by
    rw [htoken, given, Option.filter_some, if_pos (decide_eq_true hreads.encode_ne)]
  rw [authenticate, hgiven]
  simp only [validateToken_issued hreads, mem_blacklistAt]
  by_cases hexpired : (payload.exp : Moment) + 1 ≤ now
  · simp [hexpired]
  · by_cases hrevoked : isRevoked calls lookup payload.jti <;> simp [hexpired, hrevoked]

/-- The blacklist is looked at up to `delay` after the last moment at which the token is valid. -/
theorem refused_iff (hreads : jwt.Reads payload) (hdelay : 0 ≤ delay) (returned : Moment) :
    (∀ (devMode : Bool) (h : Headers) (now lookup : Moment),
      h.accessToken = some (jwt.encode (providerClaims payload)) →
      returned < now → now ≤ lookup → lookup ≤ now + delay →
      ∃ e, authenticate devMode (validateToken jwt now) (blacklistAt calls lookup) h = .error e) ↔
    payload.exp + 1 ≤ returned ∨
      ∀ moment, returned < moment → moment < payload.exp + 1 + delay → isRevoked calls moment payload.jti := by
  constructor
  · intro h
    refine or_iff_not_imp_left.mpr fun hvalid moment hreturned hend => ?_
    have hnow : ∃ now, returned < now ∧ now ≤ moment ∧ moment ≤ now + delay ∧ now < payload.exp + 1 := by
      rcases lt_or_ge moment (payload.exp + 1) with hin | hout
      · exact ⟨moment, hreturned, le_rfl, le_add_of_nonneg_right hdelay, hin⟩
      · obtain ⟨now, hmax, hlt⟩ :=
          exists_between (max_lt (not_le.mp hvalid) (sub_lt_iff_lt_add.mpr hend))
        obtain ⟨hlate, hnear⟩ := max_lt_iff.mp hmax
        exact ⟨now, hlate, hlt.le.trans hout, (sub_lt_iff_lt_add.mp hnear).le, hlt⟩
    obtain ⟨now, hlate, hlookup, hnear, hin⟩ := hnow
    let headers : Headers := { accessToken := some (jwt.encode (providerClaims payload)) }
    have herror := (authenticate_error_iff hreads rfl).mp (h false headers now moment rfl hlate hlookup hnear)
    exact herror.resolve_left hin.not_ge
  · rintro h devMode headers now lookup htoken hreturned hlookup hdelay
    refine (authenticate_error_iff hreads htoken).mpr (or_iff_not_imp_left.mpr fun hvalid => ?_)
    have hnow : now < payload.exp + 1 := not_le.mp hvalid
    rcases h with h | h
    · exact absurd (h.trans_lt (hreturned.trans hnow)) (lt_irrefl _)
    · exact h lookup (hreturned.trans_le hlookup) (by linarith)

/-- A call on its own has to be slow enough to reach Redis in a later second than the one it has read. -/
theorem lasting_single_iff (hjti : call.jti = payload.jti) : Lasting delay [call] payload ↔
    ∀ returned ∈ call.returned, payload.exp + 1 ≤ returned ∨
      ⌊call.read⌋ < payload.exp ∧ ⌊call.read⌋ + 1 + delay ≤ call.executed := by
  rw [Lasting, List.forall_mem_singleton]
  refine ⟨fun h returned hreturned => ?_, fun h _ returned hreturned => ?_⟩
  · refine (h hjti returned hreturned).imp_right fun ⟨⟨other, hother, hrecords, _⟩, hlast⟩ => ?_
    obtain rfl := List.mem_singleton.mp hother
    exact ⟨hrecords.2, (hlast [] other [] rfl hrecords).resolve_right (by simp)⟩
  · refine (h returned hreturned).imp_right fun ⟨hread, hslow⟩ => ⟨?_, ?_⟩
    · exact ⟨call, List.mem_singleton_self call, ⟨hjti, hread⟩, call.executed_le returned hreturned⟩
    · intro before other after hsplit _
      obtain ⟨-, rfl, -⟩ : before = [] ∧ other = call ∧ after = [] := by
        cases before with
        | nil => simpa [eq_comm] using hsplit
        | cons _ _ => simp at hsplit
      exact .inl hslow

/-- A revoked token stays refused iff its records last. -/
theorem refuses_iff_lasting (hreads : jwt.Reads payload) (hdelay : 0 ≤ delay)
    (hexp : ∀ call ∈ calls, call.jti = payload.jti → call.exp = payload.exp) :
    Refuses jwt delay calls payload ↔ Lasting delay calls payload := by
  refine forall_congr' fun call => forall_congr' fun hcall => forall_congr' fun hjti => forall_congr' fun returned =>
    forall_congr' fun hreturned => ?_
  have hlapse : ∀ e ∈ calls.filterMap RevokeCall.record, e.key = blacklistKey payload.jti → e.write ≤ e.lapse := by
    intro e he hkey
    obtain ⟨other, hother, hrecord⟩ := List.mem_filterMap.mp he
    obtain ⟨hrecords, rfl⟩ := (record_iff (hexp other hother)).mp ⟨hrecord, hkey⟩
    exact entry_write_le hrecords
  rw [refused_iff hreads hdelay]
  simp only [isRevoked]
  rw [Log.standing_throughout_iff hlapse, ← or_assoc]
  refine or_congr ?_ (and_congr ?_ ?_)
  · exact or_iff_left_of_imp fun h => le_trans (le_add_of_nonneg_right hdelay) h
  · exact exists_record_iff hexp _
  · rw [forall_record_iff hexp]
    refine forall_congr' fun before => forall_congr' fun other => forall_congr' fun after => forall_congr' fun hcalls =>
      forall_congr' fun _ => or_congr entry_lapse_iff ?_
    exact exists_record_iff (fun next hnext => hexp next (by simp [hcalls, hnext])) _

end Revocation

section Logout

/-- A token issued half a second past a full one, for a quarter of an hour. -/
def sessionPayload : TokenPayload := issuedPayload 900 "ri.user.u" "ri.tenant.t" "member" "j" (1 / 2)

def sessionJwt : Jwt where
  encode claims := "jwt." ++ claims.payload.jti
  decode token := if token = "jwt.j" then .ok (providerClaims sessionPayload) else .error "bad_signature"

/-- A logout that reaches Redis in the second whose beginning it has read. -/
def promptLogout : RevokeCall where
  jti := "j"
  exp := 900
  read := 41 / 4
  executed := 41 / 4
  returned := some (21 / 2)
  read_le := le_rfl
  executed_le := by norm_num

/-- One that takes more than a second. -/
def slowLogout : RevokeCall where
  jti := "j"
  exp := 900
  read := 41 / 4
  executed := 23 / 2
  returned := some 12
  read_le := by norm_num
  executed_le := by norm_num

theorem sessionPayload_exp : sessionPayload.exp = 900 := by decide +kernel

theorem sessionJwt_reads : sessionJwt.Reads sessionPayload := ⟨rfl, by decide⟩

theorem refuses_slow_logout : Refuses sessionJwt 0 [slowLogout] sessionPayload := by
  refine (refuses_iff_lasting sessionJwt_reads le_rfl ?_).mpr ((lasting_single_iff rfl).mpr ?_)
  · exact List.forall_mem_singleton.mpr fun _ => sessionPayload_exp.symm
  · intro returned _
    refine .inr ?_
    rw [sessionPayload_exp]
    decide +kernel

/-- In the last second of its life the token is accepted again. -/
theorem revoked_accepted :
    authenticate false (validateToken sessionJwt (1801 / 2)) (blacklistAt [promptLogout] (1801 / 2))
      { accessToken := some "jwt.j" } = .ok ⟨"ri.user.u", "ri.tenant.t", "member"⟩ ∧
    ¬ Refuses sessionJwt 0 [promptLogout] sessionPayload := by
  have haccepted : authenticate false (validateToken sessionJwt (1801 / 2)) (blacklistAt [promptLogout] (1801 / 2))
      { accessToken := some "jwt.j" } = .ok ⟨"ri.user.u", "ri.tenant.t", "member"⟩ := by decide +kernel
  refine ⟨haccepted, fun h => ?_⟩
  obtain ⟨e, he⟩ := h promptLogout (by simp) rfl (21 / 2) rfl false { accessToken := some "jwt.j" } (1801 / 2)
    (1801 / 2) rfl (by norm_num) le_rfl (by norm_num)
  rw [haccepted] at he
  cases he

end Logout

end Lingshu.Setting
