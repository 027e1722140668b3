import VisionPlayback.Domain
import VisionPlayback.Lib.Table

/-!
# Cache-first camera login

The login cache and its sweep on access. The two readings of the steady clock
that one call makes, and the answer of the SDK login, are inputs.
-/

namespace VisionPlayback

open Lib

/-- What the authenticator is asked to do. -/
inductive AuthCall
  | login (credentials : Credentials) (token : SessionToken)
  | logout (token : SessionToken)
  deriving DecidableEq

namespace LoginUseCase

structure Entry where
  token : SessionToken
  lastUsed : Int
  deriving DecidableEq

abbrev Cache := Table CameraIdentity Entry

structure Env where
  /-- The clock reading of the sweep. -/
  sweepNow : Int
  /-- The clock reading after the sweep. -/
  now : Int
  login : Credentials → SessionToken

def expired (idleTimeout now : Int) (e : Entry) : Bool := e.lastUsed < now - idleTimeout

/-- Drops the expired entries and logs each of them out. -/
def sweepIdle (idleTimeout now : Int) (cache : Cache) : Cache × List AuthCall :=
  (cache.retain fun _ e => !expired idleTimeout now e,
    (cache.values.filter (expired idleTimeout now)).map fun e => .logout e.token)

def ensureLoggedIn (idleTimeout : Int) (env : Env) (credentials : Credentials) (cache : Cache) :
    SessionToken × Cache × List AuthCall :=
  let (cache, swept) := sweepIdle idleTimeout env.sweepNow cache
  let id : CameraIdentity := ⟨credentials.ip, credentials.port, credentials.user⟩
  match cache.lookup id with
  | some e => (e.token, cache.insert id { e with lastUsed := env.now }, swept)
  | none =>
    let token := env.login credentials
    if token < 0 then (token, cache, swept ++ [.login credentials token])
    else (token, (cache.emplace id ⟨token, env.now⟩).1, swept ++ [.login credentials token])

/-- The sessions a call logs out are the expired ones it finds in the cache. -/
theorem mem_logout_ensureLoggedIn {idleTimeout : Int} {env : Env} {credentials : Credentials}
    {cache : Cache} {token : SessionToken} :
    .logout token ∈ (ensureLoggedIn idleTimeout env credentials cache).2.2 ↔
      ∃ id e, cache.lookup id = some e ∧ e.token = token ∧
        e.lastUsed < env.sweepNow - idleTimeout := by
  have hsweep : AuthCall.logout token ∈ (sweepIdle idleTimeout env.sweepNow cache).2 ↔
      ∃ id e, cache.lookup id = some e ∧ e.token = token ∧
        e.lastUsed < env.sweepNow - idleTimeout := by
    simp only [sweepIdle, List.mem_map, List.mem_filter, Table.mem_values, expired,
      decide_eq_true_eq, AuthCall.logout.injEq]
    constructor
    · rintro ⟨e, ⟨⟨id, hid⟩, hexp⟩, rfl⟩
      exact ⟨id, e, hid, rfl, hexp⟩
    · rintro ⟨id, e, hid, rfl, hexp⟩
      exact ⟨e, ⟨⟨id, hid⟩, hexp⟩, rfl⟩
  rw [← hsweep]
  unfold ensureLoggedIn
  dsimp only
  split
  · rfl
  · split <;> simp

end LoginUseCase

end VisionPlayback
