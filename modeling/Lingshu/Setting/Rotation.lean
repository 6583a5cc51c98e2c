import Lingshu.Interaction.Until
import Lingshu.Interaction.Yields
import Lingshu.Setting.Effects

/-! # Rotation of refresh tokens

`refresh` as a program of the reads and writes of its repositories, so that calls can take them in any order: the
record of a token is read and tested in one step and revoked in a later one. -/
namespace Lingshu.Setting
open Interaction Proc
set_option autoImplicit false

/-! ## The reads and writes of refresh -/

inductive TokenCmd where
  | getByHash (tokenHash : String)
  | revoke (tokenHash : String) (now : Time)
  | getMembership (userRid tenantRid : String)
  | create (token : RefreshToken)

def TokenCmd.Answer : TokenCmd → Type
  | .getByHash .. => Option RefreshToken
  | .getMembership .. => Option Membership
  | .revoke .. | .create .. => Unit

def TokenCmd.exec : (c : TokenCmd) → Database → Except Exc c.Answer × Database
  | .getByHash tokenHash, db => (.ok (db.getByHash tokenHash), db)
  | .revoke tokenHash now, db => (.ok (), db.revokeRefreshToken tokenHash now)
  | .getMembership userRid tenantRid, db => (.ok (db.getMembership userRid tenantRid), db)
  | .create token, db =>
    match db.insertRefreshToken token with
    | .ok db' => (.ok (), db')
    | .error e => (.error e, db)

abbrev TokenProgram (α : Type) := Prog TokenCmd TokenCmd.Answer Exc α

def ask (c : TokenCmd) : TokenProgram c.Answer := Prog.perform c

section Program
variable (cfg : Config) (ctx : Ctx)

/-- The row of the token that replaces `token`. -/
def RefreshToken.successor (token : RefreshToken) : RefreshToken :=
  { tokenHash := cfg.sha256 ctx.rawToken, userRid := token.userRid, tenantRid := token.tenantRid,
    expiresAt := ctx.now + cfg.refreshTtl }

/-- The new tokens, once the role is known. -/
def issueRotated (token : RefreshToken) (membership : Option Membership) : TokenProgram (TokenPayload × String) := do
  let role := (membership.map Membership.role).getD "member"
  let _ ← (ask (.create (token.successor cfg ctx)) : TokenProgram Unit)
  return (issueAccessToken cfg ctx token.userRid token.tenantRid role (ctx.uuids 0), ctx.rawToken)

/-- `refresh` from the lookup of the role on. -/
def issueSuccessor (token : RefreshToken) : TokenProgram (TokenPayload × String) := do
  let membership ← (ask (.getMembership token.userRid token.tenantRid) : TokenProgram (Option Membership))
  issueRotated cfg ctx token membership

/-- `refresh` once the token has been found valid. -/
def rotate (refreshHash : String) (token : RefreshToken) : TokenProgram (TokenPayload × String) := do
  let _ ← (ask (.revoke refreshHash ctx.now) : TokenProgram Unit)
  issueSuccessor cfg ctx token

/-- What `refresh` makes of the record that it has read. -/
def testToken (refreshHash : String) : Option RefreshToken → TokenProgram (TokenPayload × String)
  | none => .throw tokenExpired
  | some token =>
    match token.isValid cfg.awareDatetimes ctx.now with
    | .error e => .throw e
    | .ok false => .throw tokenExpired
    | .ok true => rotate cfg ctx refreshHash token

def refreshSteps (refreshRaw : String) : TokenProgram (TokenPayload × String) := do
  let token ← (ask (.getByHash (cfg.sha256 refreshRaw)) : TokenProgram (Option RefreshToken))
  testToken cfg ctx (cfg.sha256 refreshRaw) token

section Alone
variable (db : Database) (token : RefreshToken)

theorem run_refreshSteps (refreshRaw : String) : (refreshSteps cfg ctx refreshRaw).run TokenCmd.exec db =
    (testToken cfg ctx (cfg.sha256 refreshRaw) (db.getByHash (cfg.sha256 refreshRaw))).run TokenCmd.exec db := rfl

theorem run_rotate (refreshHash : String) : (rotate cfg ctx refreshHash token).run TokenCmd.exec db =
    (issueRotated cfg ctx token ((db.revokeRefreshToken refreshHash ctx.now).getMembership token.userRid token.tenantRid)).run
      TokenCmd.exec (db.revokeRefreshToken refreshHash ctx.now) := rfl

theorem run_issueRotated_ok (m : Option Membership) {db' : Database}
    (h : db.insertRefreshToken (token.successor cfg ctx) = .ok db') :
    (issueRotated cfg ctx token m).run TokenCmd.exec db =
      (.ok (issueAccessToken cfg ctx token.userRid token.tenantRid ((m.map Membership.role).getD "member")
        (ctx.uuids 0), ctx.rawToken), db') := by
  have hcreate : (ask (.create (token.successor cfg ctx))).run TokenCmd.exec db = (.ok (), db') :=
    (Prog.run_perform _ _ _).trans (by simp only [TokenCmd.exec, h])
  exact Prog.run_bind_ok _ hcreate _

theorem run_issueRotated_error (m : Option Membership) {e : Exc}
    (h : db.insertRefreshToken (token.successor cfg ctx) = .error e) :
    (issueRotated cfg ctx token m).run TokenCmd.exec db = (.error e, db) := by
  have hcreate : (ask (.create (token.successor cfg ctx))).run TokenCmd.exec db = (.error e, db) :=
    (Prog.run_perform _ _ _).trans (by simp only [TokenCmd.exec, h])
  exact Prog.run_bind_error _ hcreate _

end Alone

/-- Alone, the steps do what `refresh` does in its session. -/
theorem refresh_steps (refreshRaw : String) (s : Server) :
    (refresh cfg ctx refreshRaw).Ensures s
      (fun a s' => (refreshSteps cfg ctx refreshRaw).run TokenCmd.exec s.db = (.ok a, s'.db) ∧ { s with db := s'.db } = s')
      fun e s' => (refreshSteps cfg ctx refreshRaw).run TokenCmd.exec s.db = (.error e, s'.db) ∧ { s with db := s'.db } = s' := by
  simp only [refresh, Proc.ensures_bind, ensures_query, Proc.ensures_orRaise, Proc.ensures_ofExcept,
    Proc.ensures_require, ensures_execute, issueRefreshToken, ensures_flush, Proc.ensures_pure, run_refreshSteps]
  refine ⟨fun token htoken => ⟨fun valid hvalid => ⟨?_, ?_⟩, ?_⟩, ?_⟩
  · rintro rfl
    have hrun : (testToken cfg ctx (cfg.sha256 refreshRaw) (some token)).run TokenCmd.exec s.db =
        (rotate cfg ctx (cfg.sha256 refreshRaw) token).run TokenCmd.exec s.db := by
      simp only [testToken, hvalid]
    rw [htoken, hrun, run_rotate]
    constructor
    · intro db hdb
      exact ⟨run_issueRotated_ok cfg ctx _ token _ hdb, trivial⟩
    · intro e hdb
      exact ⟨run_issueRotated_error cfg ctx _ token _ hdb, trivial⟩
  · intro hvalid'
    have hfalse : valid = false := by simpa using hvalid'
    simp [testToken, htoken, hvalid, hfalse]
  · intro e hvalid
    simp [testToken, htoken, hvalid]
  · intro hnone
    simp [testToken, hnone]

end Program

/-! ## Calls in any order -/

structure RefreshCall where
  ctx : Ctx
  refreshRaw : String

/-- Calls of `refresh` on one database. -/
def refreshes (cfg : Config) :
    System TokenCmd TokenCmd.Answer Exc Database (TokenPayload × String) RefreshCall Empty where
  handler := TokenCmd.exec
  program call := refreshSteps cfg call.ctx call.refreshRaw
  env v _ := v.elim

abbrev RefreshPool := Pool TokenCmd TokenCmd.Answer Exc Database (TokenPayload × String) RefreshCall

abbrev RefreshEvent := Interaction.Event Exc RefreshCall Empty

/-- Of the calls made with a token, one at most has returned a successor. -/
def OneSuccessor (cfg : Config) (p : RefreshPool) : Prop :=
  ∀ (i j : ℕ) (t u : RefreshCall × TokenProgram (TokenPayload × String)), p.threads[i]? = some t → p.threads[j]? = some u →
    cfg.sha256 t.1.refreshRaw = cfg.sha256 u.1.refreshRaw → t.2.returned.isSome → u.2.returned.isSome → i = j

/-- The call has found the token valid and is about to revoke it. -/
def TokenCmd.Revokes (tokenHash : String) : Option TokenCmd → Prop
  | some (.revoke h _) => h = tokenHash
  | _ => False

instance (tokenHash : String) : (c : Option TokenCmd) → Decidable (TokenCmd.Revokes tokenHash c)
  | some (.revoke h _) => inferInstanceAs (Decidable (h = tokenHash))
  | some (.getByHash _) | some (.getMembership _ _) | some (.create _) | none => isFalse id

/-- The token that a command finds valid. -/
def findsValid (cfg : Config) (db : Database) : Option (RefreshCall × TokenCmd) → Option String
  | some (call, .getByHash tokenHash) => do
    let token ← db.getByHash tokenHash
    match token.isValid cfg.awareDatetimes call.ctx.now with
    | .ok true => some tokenHash
    | _ => none
  | _ => none

/-- No token is found valid by one call while another that has found it valid has not revoked it yet. -/
def Exclusive (cfg : Config) (p : RefreshPool) (e : RefreshEvent) : Prop :=
  ∀ tokenHash ∈ findsValid cfg p.state (p.issues e), ∀ t ∈ p.threads, ¬ TokenCmd.Revokes tokenHash t.2.head

instance (cfg : Config) (p : RefreshPool) (e : RefreshEvent) : Decidable (Exclusive cfg p e) :=
  inferInstanceAs (Decidable (∀ tokenHash ∈ findsValid cfg p.state (p.issues e), ∀ t ∈ p.threads,
    ¬ TokenCmd.Revokes tokenHash t.2.head))

def Database.Knows (db : Database) (tokenHash : String) : Prop :=
  ∃ k ∈ db.refreshTokens, k.tokenHash = tokenHash

def Database.Revoked (db : Database) (tokenHash : String) : Prop :=
  ∃ k ∈ db.refreshTokens, k.tokenHash = tokenHash ∧ k.revokedAt.isSome

/-- Where a call can be. -/
inductive Stage (cfg : Config) (db : Database) (call : RefreshCall) : TokenProgram (TokenPayload × String) → Prop where
  | asking : Stage cfg db call (refreshSteps cfg call.ctx call.refreshRaw)
  | refused (e : Exc) : Stage cfg db call (.throw e)
  /-- The token has been found valid. -/
  | holding (token : RefreshToken) (h : db.Knows (cfg.sha256 call.refreshRaw)) :
      Stage cfg db call (rotate cfg call.ctx (cfg.sha256 call.refreshRaw) token)
  | revoked (token : RefreshToken) (h : db.Revoked (cfg.sha256 call.refreshRaw)) :
      Stage cfg db call (issueSuccessor cfg call.ctx token)
  | creating (token : RefreshToken) (m : Option Membership) (h : db.Revoked (cfg.sha256 call.refreshRaw)) :
      Stage cfg db call (issueRotated cfg call.ctx token m)
  | returned (tokens : TokenPayload × String) (h : db.Revoked (cfg.sha256 call.refreshRaw)) : Stage cfg db call (.pure tokens)

/-- The call has found its token valid, and has not raised. -/
def Engaged : TokenProgram (TokenPayload × String) → Prop
  | .pure _ => True
  | .throw _ => False
  | .call (.getByHash _) _ => False
  | .call _ _ => True

/-- Every call is at a stage, and no two have found one token valid. -/
structure Rotating (cfg : Config) (p : RefreshPool) : Prop where
  stages : ∀ t ∈ p.threads, Stage cfg p.state t.1 t.2
  alone : ∀ (i j : ℕ) (t u : RefreshCall × TokenProgram (TokenPayload × String)), p.threads[i]? = some t →
    p.threads[j]? = some u → cfg.sha256 t.1.refreshRaw = cfg.sha256 u.1.refreshRaw → Engaged t.2 → Engaged u.2 → i = j

/-! ## One step -/

section Step
variable {cfg : Config} {db : Database} {call : RefreshCall} {q : TokenProgram (TokenPayload × String)}

theorem Database.getByHash_some {tokenHash : String} {k : RefreshToken} (h : db.getByHash tokenHash = some k) :
    k ∈ db.refreshTokens ∧ k.tokenHash = tokenHash := by
  refine ⟨List.mem_of_find?_eq_some h, ?_⟩
  have hk := List.find?_some h
  exact of_decide_eq_true hk

theorem Database.insertRefreshToken_tokens {db' : Database} {k : RefreshToken} (h : db.insertRefreshToken k = .ok db') :
    db'.refreshTokens = db.refreshTokens ++ [k] := by
  unfold Database.insertRefreshToken at h
  split at h
  · cases h
    rfl
  · cases h

/-- No command forgets a token or takes back its revocation. -/
theorem TokenCmd.exec_keeps (c : TokenCmd) (tokenHash : String) :
    (db.Knows tokenHash → (c.exec db).2.Knows tokenHash) ∧ (db.Revoked tokenHash → (c.exec db).2.Revoked tokenHash) := by
  cases c with
  | getByHash | getMembership => exact ⟨id, id⟩
  | revoke h now =>
    constructor
    · rintro ⟨k, hk, rfl⟩
      refine ⟨_, mem_setRow.mpr ⟨k, hk, rfl⟩, ?_⟩
      split <;> rfl
    · rintro ⟨k, hk, rfl, hrev⟩
      refine ⟨_, mem_setRow.mpr ⟨k, hk, rfl⟩, ?_⟩
      split
      · exact ⟨rfl, rfl⟩
      · exact ⟨rfl, hrev⟩
  | create token =>
    simp only [TokenCmd.exec]
    split
    · rename_i db' hdb
      have htokens := Database.insertRefreshToken_tokens hdb
      constructor
      · rintro ⟨k, hk, h⟩
        exact ⟨k, htokens ▸ List.mem_append_left _ hk, h⟩
      · rintro ⟨k, hk, h⟩
        exact ⟨k, htokens ▸ List.mem_append_left _ hk, h⟩
    · exact ⟨id, id⟩

theorem revoked_of_revoke {tokenHash : String} (now : Time) (h : db.Knows tokenHash) :
    (db.revokeRefreshToken tokenHash now).Revoked tokenHash := by
  obtain ⟨k, hk, rfl⟩ := h
  refine ⟨_, mem_setRow.mpr ⟨k, hk, rfl⟩, ?_⟩
  rw [if_pos rfl]
  exact ⟨rfl, rfl⟩

/-- A revoked token is not found valid. -/
theorem not_valid_of_revoked {tokenHash : String} {token : RefreshToken} {now : Time} (hrev : db.Revoked tokenHash)
    (hfound : db.getByHash tokenHash = some token) : token.isValid cfg.awareDatetimes now ≠ .ok true := by
  obtain ⟨k, hk, rfl, hrev⟩ := hrev
  obtain ⟨htoken, hhash⟩ := Database.getByHash_some hfound
  obtain rfl : token = k := List.inj_on_of_nodup_map db.tokenKeys htoken hk hhash
  simp [RefreshToken.isValid, hrev]

theorem Stage.mono {db' : Database} (h : Stage cfg db call q)
    (hkeeps : ∀ tokenHash, (db.Knows tokenHash → db'.Knows tokenHash) ∧ (db.Revoked tokenHash → db'.Revoked tokenHash)) :
    Stage cfg db' call q := by
  cases h with
  | asking => exact .asking
  | refused e => exact .refused e
  | holding token h => exact .holding token ((hkeeps _).1 h)
  | revoked token h => exact .revoked token ((hkeeps _).2 h)
  | creating token m h => exact .creating token m ((hkeeps _).2 h)
  | returned tokens h => exact .returned tokens ((hkeeps _).2 h)

/-- A call that has found its token valid has revoked it, or is about to. -/
theorem Stage.engaged (h : Stage cfg db call q) (he : Engaged q) :
    TokenCmd.Revokes (cfg.sha256 call.refreshRaw) q.head ∨ db.Revoked (cfg.sha256 call.refreshRaw) := by
  cases h with
  | asking | refused => exact he.elim
  | holding => exact .inl rfl
  | revoked _ h | creating _ _ h | returned _ h => exact .inr h

theorem engaged_of_returned (h : q.returned.isSome) : Engaged q := by
  cases q with
  | pure => trivial
  | throw | call => cases h

/-- A step of a call goes on to the next stage, and a call that finds its token valid has got the record. -/
theorem Stage.answered {c : TokenCmd} {k : Except Exc c.Answer → TokenProgram (TokenPayload × String)}
    (h : Stage cfg db call (.call c k)) : Stage cfg (c.exec db).2 call (k (c.exec db).1) ∧
      (Engaged (k (c.exec db).1) → Engaged (.call c k) ∨ (c = .getByHash (cfg.sha256 call.refreshRaw) ∧
        ∃ token, db.getByHash (cfg.sha256 call.refreshRaw) = some token ∧
          token.isValid cfg.awareDatetimes call.ctx.now = .ok true)) := by
  cases h with
  | asking =>
    change Stage cfg db call (testToken cfg call.ctx (cfg.sha256 call.refreshRaw) (db.getByHash (cfg.sha256 call.refreshRaw))) ∧
      (Engaged (testToken cfg call.ctx (cfg.sha256 call.refreshRaw) (db.getByHash (cfg.sha256 call.refreshRaw))) → _)
    cases hfound : db.getByHash (cfg.sha256 call.refreshRaw) with
    | none => exact ⟨.refused _, fun he => he.elim⟩
    | some token =>
      obtain ⟨hmem, hhash⟩ := Database.getByHash_some hfound
      cases hvalid : token.isValid cfg.awareDatetimes call.ctx.now with
      | error e =>
        simp only [testToken, hvalid]
        exact ⟨.refused _, fun he => he.elim⟩
      | ok valid =>
        cases valid with
        | false =>
          simp only [testToken, hvalid]
          exact ⟨.refused _, fun he => he.elim⟩
        | true =>
          have htest : testToken cfg call.ctx (cfg.sha256 call.refreshRaw) (some token) =
              rotate cfg call.ctx (cfg.sha256 call.refreshRaw) token := by simp only [testToken, hvalid]
          rw [htest]
          exact ⟨.holding token ⟨token, hmem, hhash⟩, fun _ => .inr ⟨rfl, token, rfl, hvalid⟩⟩
  | holding token h => exact ⟨.revoked token (revoked_of_revoke _ h), fun _ => .inl trivial⟩
  | revoked token h => exact ⟨.creating token _ h, fun _ => .inl trivial⟩
  | creating token m h =>
    refine ⟨?_, fun _ => .inl trivial⟩
    have hrev : (TokenCmd.exec (.create (token.successor cfg call.ctx)) db).2.Revoked _ := (TokenCmd.exec_keeps _ _).2 h
    cases hdone : (TokenCmd.exec (.create (token.successor cfg call.ctx)) db).1 with
    | ok a => exact .returned _ hrev
    | error e => exact .refused e

theorem Stage.raised {c : TokenCmd} {k : Except Exc c.Answer → TokenProgram (TokenPayload × String)}
    (h : Stage cfg db call (.call c k)) (e : Exc) : k (.error e) = .throw e := by
  cases h <;> rfl

end Step

/-! ## Every run -/

section Runs
variable {cfg : Config} {p : RefreshPool}

/-- One call goes on; if it has found its token valid, no other call has. -/
theorem Rotating.set (h : Rotating cfg p) {i : ℕ} {call : RefreshCall} {q q' : TokenProgram (TokenPayload × String)} {db : Database}
    (hi : p.threads[i]? = some (call, q)) (hkeeps : ∀ tokenHash, (p.state.Knows tokenHash → db.Knows tokenHash) ∧
      (p.state.Revoked tokenHash → db.Revoked tokenHash)) (hstage : Stage cfg db call q')
    (halone : Engaged q' → ∀ j u, p.threads[j]? = some u → cfg.sha256 call.refreshRaw = cfg.sha256 u.1.refreshRaw →
      Engaged u.2 → i = j) : Rotating cfg ⟨db, p.threads.set i (call, q')⟩ := by
  constructor
  · intro t ht
    rcases List.mem_or_eq_of_mem_set ht with ht | rfl
    · exact (h.stages t ht).mono hkeeps
    · exact hstage
  · intro a b t u ha hb hhash ht hu
    have hlen : i < p.threads.length := (List.getElem?_eq_some_iff.mp hi).1
    rw [List.getElem?_set] at ha hb
    by_cases hia : i = a
    · by_cases hib : i = b
      · exact hia.symm.trans hib
      · rw [if_pos hia, if_pos hlen] at ha
        rw [if_neg hib] at hb
        cases ha
        exact hia.symm.trans (halone ht b u hb hhash hu)
    · rw [if_neg hia] at ha
      by_cases hib : i = b
      · rw [if_pos hib, if_pos hlen] at hb
        cases hb
        exact (halone hu a t ha hhash.symm ht).symm.trans hib
      · rw [if_neg hib] at hb
        exact h.alone a b t u ha hb hhash ht hu

/-- An exclusive step keeps every token to one call. -/
theorem rotating_next {e : RefreshEvent} (h : Rotating cfg p) (he : Exclusive cfg p e) :
    Rotating cfg ((refreshes cfg).next p e) := by
  have hhappens := System.happens (refreshes cfg) p e
  revert hhappens
  generalize (refreshes cfg).next p e = p'
  intro hhappens
  have hraised : ∀ {i : ℕ} {call : RefreshCall} {c : TokenCmd} {k : Except Exc c.Answer → TokenProgram (TokenPayload × String)}
      {db : Database} (x : Exc), p.threads[i]? = some (call, .call c k) →
      (∀ tokenHash, (p.state.Knows tokenHash → db.Knows tokenHash) ∧ (p.state.Revoked tokenHash → db.Revoked tokenHash)) →
      Rotating cfg ⟨db, p.threads.set i (call, k (.error x))⟩ := by
    intro i call c k db x hi hkeeps
    rw [(h.stages _ (List.mem_of_getElem? hi)).raised]
    exact h.set hi hkeeps (.refused x) fun hengaged => hengaged.elim
  cases hhappens with
  | outside v => exact v.elim
  | nothing => exact h
  | lost x hi => exact hraised x hi fun tokenHash => TokenCmd.exec_keeps _ tokenHash
  | refused x hi => exact hraised x hi fun _ => ⟨id, id⟩
  | started call =>
    have hnew : ∀ {a : ℕ} {t : RefreshCall × TokenProgram (TokenPayload × String)},
        (p.threads ++ [(call, refreshSteps cfg call.ctx call.refreshRaw)])[a]? = some t → Engaged t.2 →
        p.threads[a]? = some t := by
      intro a t ha ht
      rw [List.getElem?_append] at ha
      split at ha
      · exact ha
      · obtain rfl := List.mem_singleton.mp (List.mem_of_getElem? ha)
        exact ht.elim
    constructor
    · intro t ht
      rcases List.mem_append.mp ht with ht | ht
      · exact h.stages t ht
      · rw [List.mem_singleton.mp ht]
        exact .asking
    · intro a b t u ha hb hhash ht hu
      exact h.alone a b t u (hnew ha ht) (hnew hb hu) hhash ht hu
  | @answered i call c k hi =>
    have hstage : Stage cfg p.state call (.call c k) := h.stages _ (List.mem_of_getElem? hi)
    obtain ⟨hstage', hengaged⟩ := hstage.answered
    refine h.set hi (fun tokenHash => TokenCmd.exec_keeps c tokenHash) hstage' fun hnext j u hj hhash hu => ?_
    rcases hengaged hnext with hbefore | ⟨rfl, token, hfound, hvalid⟩
    · exact h.alone i j _ u hi hj hhash hbefore hu
    · -- The call has just found its token valid: another that has done so has not revoked it, nor is it about to.
      exfalso
      have hissues : p.issues (.step i : RefreshEvent) = some (call, .getByHash (cfg.sha256 call.refreshRaw)) :=
        System.pending_of_getElem? hi
      have hfinds : findsValid cfg p.state (p.issues (.step i : RefreshEvent)) = some (cfg.sha256 call.refreshRaw) := by
        simp [hissues, findsValid, hfound, hvalid]
      rcases (h.stages u (List.mem_of_getElem? hj)).engaged hu with hrevokes | hrevoked
      · rw [← hhash] at hrevokes
        exact he _ hfinds u (List.mem_of_getElem? hj) hrevokes
      · rw [← hhash] at hrevoked
        exact not_valid_of_revoked hrevoked hfound hvalid

theorem Rotating.oneSuccessor (h : Rotating cfg p) : OneSuccessor cfg p :=
  fun i j t u ht hu hhash hret hret' => h.alone i j t u ht hu hhash (engaged_of_returned hret) (engaged_of_returned hret')

theorem rotating_run {db : Database} {es : List RefreshEvent}
    (hes : StepsMeet (refreshes cfg).next (Exclusive cfg) ⟨db, []⟩ es) :
    Rotating cfg (runFrom (refreshes cfg).next ⟨db, []⟩ es) := by
  refine steps_inv (fun p e => rotating_next) ?_ hes
  constructor
  · intro t ht
    cases ht
  · intro i j t u ht
    cases ht

end Runs

/-! ## A call made alone -/

/-- A valid token is exchanged, and every other one refused with nothing changed. -/
def RefreshesAlone (cfg : Config) (ctx : Ctx) (refreshRaw : String) (s : Server) : Prop :=
  if ∃ k ∈ s.db.getByHash (cfg.sha256 refreshRaw), k.revokedAt = none ∧ ctx.now < k.expiresAt then
    ∃ tokens, (serve (refresh cfg ctx refreshRaw) s).1 = .ok tokens
  else serve (refresh cfg ctx refreshRaw) s = (.error tokenExpired, s)

/-- The times of the record can be compared, or they do not have to be. -/
def Comparable (cfg : Config) (refreshRaw : String) (db : Database) : Prop :=
  cfg.awareDatetimes = true → ∀ k ∈ db.getByHash (cfg.sha256 refreshRaw), k.revokedAt.isSome

instance (cfg : Config) (refreshRaw : String) (db : Database) : Decidable (Comparable cfg refreshRaw db) :=
  inferInstanceAs (Decidable (cfg.awareDatetimes = true → ∀ k ∈ db.getByHash (cfg.sha256 refreshRaw), k.revokedAt.isSome))

section Serve
variable {α : Type} {p : Session α} {s : Server}

theorem serve_returns (h : p.Ensures s (fun _ _ => True) fun _ _ => False) : ∃ a, (serve p s).1 = .ok a := by
  unfold serve
  cases hrun : p.run s with
  | mk r s' =>
    cases r with
    | ok a => exact ⟨a, rfl⟩
    | error e => exact (h.error hrun).elim

theorem serve_raises {e : Exc} (h : p.Ensures s (fun _ _ => False) fun e' s' => e' = e ∧ s' = s) :
    serve p s = (.error e, s) := by
  unfold serve
  cases hrun : p.run s with
  | mk r s' =>
    cases r with
    | ok a => exact (h.ok hrun).elim
    | error e' =>
      obtain ⟨rfl, rfl⟩ := h.error hrun
      rfl

end Serve

section Refresh
variable {cfg : Config} {ctx : Ctx} {s : Server} {refreshRaw : String} {k : RefreshToken}

theorem refresh_unknown (h : s.db.getByHash (cfg.sha256 refreshRaw) = none) :
    serve (refresh cfg ctx refreshRaw) s = (.error tokenExpired, s) := by
  refine serve_raises ?_
  simp [refresh, query, h]

theorem refresh_invalid (h : s.db.getByHash (cfg.sha256 refreshRaw) = some k)
    (hvalid : k.isValid cfg.awareDatetimes ctx.now = .ok false) :
    serve (refresh cfg ctx refreshRaw) s = (.error tokenExpired, s) := by
  refine serve_raises ?_
  simp [refresh, query, h, hvalid]

theorem refresh_incomparable (h : s.db.getByHash (cfg.sha256 refreshRaw) = some k) {e : Exc}
    (hvalid : k.isValid cfg.awareDatetimes ctx.now = .error e) :
    serve (refresh cfg ctx refreshRaw) s = (.error e, s) := by
  refine serve_raises ?_
  simp [refresh, query, h, hvalid]

theorem refresh_valid (hfresh : ctx.FreshToken cfg s.db) (h : s.db.getByHash (cfg.sha256 refreshRaw) = some k)
    (hvalid : k.isValid cfg.awareDatetimes ctx.now = .ok true) :
    ∃ tokens, (serve (refresh cfg ctx refreshRaw) s).1 = .ok tokens := by
  refine serve_returns ?_
  have hmem := (Database.getByHash_some h).1
  let revoked : Server := { s with db := s.db.revokeRefreshToken (cfg.sha256 refreshRaw) ctx.now }
  have hfresh' : ctx.FreshToken cfg revoked.db := by
    have hkeys := map_setRow RefreshToken.tokenHash (cfg.sha256 refreshRaw) (fun k => { k with revokedAt := some ctx.now })
      RefreshToken.tokenHash (fun _ => rfl) s.db.refreshTokens
    change cfg.sha256 ctx.rawToken ∉ (setRow _ _ _ _).map _
    rw [hkeys]
    exact hfresh
  simp only [refresh, ensures_bind, ensures_query, ensures_orRaise, ensures_ofExcept, ensures_require, ensures_execute,
    ensures_pure, h]
  refine ⟨?_, by simp⟩
  rintro token ⟨⟩
  refine ⟨?_, by simp [hvalid]⟩
  intro valid hv
  obtain rfl : true = valid := Except.ok.inj (hvalid.symm.trans hv)
  refine ⟨fun _ => ?_, by simp⟩
  exact (ensures_issueRefreshToken hfresh' (s.db.tokenUsers k hmem) (s.db.tokenTenants k hmem)).mono (fun _ _ _ => trivial)
    fun _ _ hf => hf

theorem isValid_revoked (h : k.revokedAt.isSome) (now : Time) : k.isValid cfg.awareDatetimes now = .ok false := by
  rw [RefreshToken.isValid, if_pos h]

theorem isValid_aware (haware : cfg.awareDatetimes = true) (h : ¬ k.revokedAt.isSome) (now : Time) :
    k.isValid cfg.awareDatetimes now = .error .typeError := by
  rw [RefreshToken.isValid, if_neg h, if_pos haware]

theorem isValid_naive (hnaive : ¬ cfg.awareDatetimes = true) (h : ¬ k.revokedAt.isSome) (now : Time) :
    k.isValid cfg.awareDatetimes now = .ok (decide (now < k.expiresAt)) := by
  rw [RefreshToken.isValid, if_neg h, if_neg hnaive]

/-- Where the times can be compared, a call made alone does what it should. -/
theorem refreshesAlone_iff (hfresh : ctx.FreshToken cfg s.db) :
    RefreshesAlone cfg ctx refreshRaw s ↔ Comparable cfg refreshRaw s.db := by
  cases hfound : s.db.getByHash (cfg.sha256 refreshRaw) with
  | none => simp [RefreshesAlone, Comparable, hfound, refresh_unknown hfound]
  | some k =>
    have hcomparable : Comparable cfg refreshRaw s.db ↔ (cfg.awareDatetimes = true → k.revokedAt.isSome) := by
      simp [Comparable, hfound]
    have halone : RefreshesAlone cfg ctx refreshRaw s ↔ if k.revokedAt = none ∧ ctx.now < k.expiresAt then
        ∃ tokens, (serve (refresh cfg ctx refreshRaw) s).1 = .ok tokens
        else serve (refresh cfg ctx refreshRaw) s = (.error tokenExpired, s) := by
      simp [RefreshesAlone, hfound]
    rw [hcomparable, halone]
    by_cases hrev : k.revokedAt.isSome
    · have hsome : k.revokedAt ≠ none := Option.isSome_iff_ne_none.mp hrev
      rw [if_neg fun h => hsome h.1, refresh_invalid hfound (isValid_revoked hrev _)]
      exact iff_of_true rfl fun _ => hrev
    · have hnone : k.revokedAt = none := by simpa using hrev
      by_cases haware : cfg.awareDatetimes = true
      · have hrefused := refresh_incomparable hfound (isValid_aware haware hrev ctx.now)
        refine iff_of_false ?_ fun h => hrev (h haware)
        split
        · rw [hrefused]
          rintro ⟨tokens, h⟩
          cases h
        · rw [hrefused]
          intro h
          cases h
      · refine iff_of_true ?_ fun h => absurd h haware
        have hvalid := isValid_naive haware hrev ctx.now
        split
        · rename_i hlive
          rw [decide_eq_true hlive.2] at hvalid
          exact refresh_valid hfresh hfound hvalid
        · rename_i hdead
          rw [decide_eq_false fun hlive => hdead ⟨hnone, hlive⟩] at hvalid
          exact refresh_invalid hfound hvalid

end Refresh

/-! ## Rotation -/

/-- In every run whose calls find a token valid only when no other is about to revoke it, a token has one successor
at most; and a call made alone does what it should exactly when the times can be compared. -/
theorem refresh_rotates (cfg : Config) :
    (∀ (db : Database) (es : List RefreshEvent), StepsMeet (refreshes cfg).next (Exclusive cfg) ⟨db, []⟩ es →
      OneSuccessor cfg (runFrom (refreshes cfg).next ⟨db, []⟩ es)) ∧
    ∀ (ctx : Ctx) (refreshRaw : String) (s : Server), ctx.FreshToken cfg s.db →
      (RefreshesAlone cfg ctx refreshRaw s ↔ Comparable cfg refreshRaw s.db) :=
  ⟨fun _ _ hes => (rotating_run hes).oneSuccessor, fun _ _ _ hfresh => refreshesAlone_iff hfresh⟩

/-- The seeded admin has signed in; its token is "n". -/
def signedIn (cfg : Config) : Server :=
  (Server.seeded cfg (.plain "" "" 0)).next cfg (.call (.plain "" "" 1) (.login "admin@example.com" "admin123"))

def refreshCall (n : ℕ) : RefreshCall := ⟨.plain "ri.user." "ri.tenant." n, "n"⟩

/-- Two calls with one token, one after the other. -/
def inTurn : List RefreshEvent :=
  [.start (refreshCall 2), .step 0, .step 0, .step 0, .step 0, .start (refreshCall 3), .step 1]

theorem refresh_rotates_inTurn : OneSuccessor .plain (runFrom (refreshes .plain).next ⟨(signedIn .plain).db, []⟩ inTurn) ∧
    (RefreshesAlone .plain (.plain "" "" 2) "n" (signedIn .plain) ↔ Comparable .plain "n" (signedIn .plain).db) :=
  ⟨(refresh_rotates .plain).1 _ inTurn (by decide +kernel), (refresh_rotates .plain).2 _ "n" _ (by decide +kernel)⟩

/-- Two calls with one token, both of which look it up before either revokes it. -/
def bothFirst : List RefreshEvent :=
  [.start (refreshCall 2), .start (refreshCall 3), .step 0, .step 1, .step 0, .step 1, .step 0, .step 1, .step 0, .step 1]

/-- The driver returns aware datetimes. -/
def Config.aware : Config := { Config.plain with awareDatetimes := true }

/-- One token has two successors; with aware datetimes, a valid token is not exchanged. -/
theorem refreshed_twice :
    (¬ ∀ es : List RefreshEvent, OneSuccessor .plain (runFrom (refreshes .plain).next ⟨(signedIn .plain).db, []⟩ es)) ∧
    Ctx.FreshToken .aware (.plain "" "" 2) (signedIn .aware).db ∧
    ¬ RefreshesAlone .aware (.plain "" "" 2) "n" (signedIn .aware) := by
  have hfresh : Ctx.FreshToken .aware (.plain "" "" 2) (signedIn .aware).db := by decide +kernel
  refine ⟨?_, hfresh, ?_⟩
  · intro h
    let p := runFrom (refreshes .plain).next ⟨(signedIn .plain).db, []⟩ bothFirst
    have htwo : p.threads.map (fun t => (t.1.refreshRaw, t.2.returned.isSome)) = [("n", true), ("n", true)] := by
      decide +kernel
    match hthreads : p.threads with
    | [t, u] =>
      rw [hthreads] at htwo
      simp only [List.map_cons, List.map_nil, List.cons.injEq, Prod.mk.injEq, and_true] at htwo
      obtain ⟨⟨ht, htr⟩, hu, hur⟩ := htwo
      have hsame := h bothFirst 0 1 t u (by rw [hthreads]; rfl) (by rw [hthreads]; rfl) (by rw [ht, hu]) htr hur
      cases hsame
    | [] | [_] | _ :: _ :: _ :: _ =>
      rw [hthreads] at htwo
      simp at htwo
  · rw [refreshesAlone_iff hfresh]
    decide +kernel

end Lingshu.Setting
