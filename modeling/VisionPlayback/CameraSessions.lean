import VisionPlayback.Lib.Lease
import VisionPlayback.Lib.Transition
import VisionPlayback.Login

/-!
# Camera sessions over a run of login requests

The cache against the sessions the camera SDK has open. The SDK is trusted in one
point: a login returns a negative value or a token that is not logged in. No
order of the clock readings is assumed.
-/

namespace VisionPlayback

open Lib

def Credentials.identity (c : Credentials) : CameraIdentity := ⟨c.ip, c.port, c.user⟩

/-- What a call of the SDK does to the sessions; a refused login does nothing. -/
def AuthCall.lease : AuthCall → Option (Lease.Event SessionToken)
  | .login _ token => if token < 0 then none else some (.grant token)
  | .logout token => some (.revoke token)

def leases (calls : List AuthCall) : List (Lease.Event SessionToken) :=
  calls.filterMap AuthCall.lease

/-- The tokens logged in and not yet logged out, after calls given oldest first. -/
def liveTokens (calls : List AuthCall) : List SessionToken := Lease.after [] (leases calls)

namespace LoginUseCase

structure Sessions where
  cache : Cache := ∅
  calls : List AuthCall := []

structure Request where
  env : Env
  credentials : Credentials

namespace Request

variable (idleTimeout : Int) (r : Request) (s : Sessions)

/-- What the request leaves of the cache before it looks into it. -/
def swept : Cache := (sweepIdle idleTimeout r.env.sweepNow s.cache).1

def result : SessionToken := (ensureLoggedIn idleTimeout r.env r.credentials s.cache).1

def calls : List AuthCall := (ensureLoggedIn idleTimeout r.env r.credentials s.cache).2.2

end Request

/-- One request after the other, with an SDK that hands out fresh tokens. -/
def sessions (idleTimeout : Int) : System Sessions Request where
  step r s :=
    if Lease.Fresh (liveTokens s.calls) (leases (r.calls idleTimeout s)) then
      some ⟨(ensureLoggedIn idleTimeout r.env r.credentials s.cache).2.1,
        s.calls ++ r.calls idleTimeout s⟩
    else none

/-! ## What one request does -/

/-- The cases of a request, by what it finds once the cache is swept. -/
inductive Served (env : Env) (credentials : Credentials) (swept : Cache) (logouts : List AuthCall) :
    SessionToken → Cache → List AuthCall → Prop
  | cached {e : Entry} : swept.lookup credentials.identity = some e →
      Served env credentials swept logouts e.token
        (swept.insert credentials.identity { e with lastUsed := env.now }) logouts
  | refused {token : SessionToken} : swept.lookup credentials.identity = none → token < 0 →
      Served env credentials swept logouts token swept (logouts ++ [.login credentials token])
  | opened {token : SessionToken} : swept.lookup credentials.identity = none → 0 ≤ token →
      Served env credentials swept logouts token
        (swept.insert credentials.identity ⟨token, env.now⟩)
        (logouts ++ [.login credentials token])

theorem served (idleTimeout : Int) (env : Env) (credentials : Credentials) (cache : Cache) :
    Served env credentials (sweepIdle idleTimeout env.sweepNow cache).1
      (sweepIdle idleTimeout env.sweepNow cache).2
      (ensureLoggedIn idleTimeout env credentials cache).1
      (ensureLoggedIn idleTimeout env credentials cache).2.1
      (ensureLoggedIn idleTimeout env credentials cache).2.2 := by
  unfold ensureLoggedIn
  dsimp only
  split
  · next e he => exact .cached he
  · next hnone =>
    split
    · next hneg => exact .refused hnone hneg
    · next hpos =>
      rw [Table.emplace_of_notMem (AList.lookup_eq_none.mp hnone)]
      exact .opened hnone (Int.not_lt.mp hpos)

theorem served_eq (idleTimeout : Int) (env : Env) (credentials : Credentials) (cache : Cache) :
    ∃ token cache' calls, ensureLoggedIn idleTimeout env credentials cache = (token, cache', calls) ∧
      Served env credentials (sweepIdle idleTimeout env.sweepNow cache).1
        (sweepIdle idleTimeout env.sweepNow cache).2 token cache' calls :=
  ⟨_, _, _, rfl, served idleTimeout env credentials cache⟩

theorem stepped {idleTimeout : Int} {r : Request} {s s' : Sessions}
    (h : (sessions idleTimeout).step r s = some s') :
    Lease.Fresh (liveTokens s.calls) (leases (r.calls idleTimeout s)) ∧
      s' = ⟨(ensureLoggedIn idleTimeout r.env r.credentials s.cache).2.1,
        s.calls ++ r.calls idleTimeout s⟩ := by
  simp only [sessions, Option.ite_none_right_eq_some, Option.some.injEq] at h
  exact ⟨h.1, h.2.symm⟩

/-- The sweep keeps exactly the entries that have not been idle for longer than the
timeout, as they are. -/
theorem lookup_swept {idleTimeout now : Int} {cache : Cache} {id : CameraIdentity} {e : Entry} :
    (sweepIdle idleTimeout now cache).1.lookup id = some e ↔
      cache.lookup id = some e ∧ now - e.lastUsed ≤ idleTimeout := by
  simp only [sweepIdle, Table.lookup_retain, Option.filter_eq_some_iff, expired,
    Bool.not_eq_true', decide_eq_false_iff_not]
  exact and_congr_right fun _ => by omega

/-- The tokens of a cache are those the sweep logs out and those it keeps. -/
theorem tokens_sweepIdle (idleTimeout now : Int) (cache : Cache) :
    (cache.values.map (·.token)).Perm
      ((cache.values.filter (expired idleTimeout now)).map (·.token) ++
        (sweepIdle idleTimeout now cache).1.values.map (·.token)) := by
  have hvalues : (sweepIdle idleTimeout now cache).1.values =
      cache.values.filter fun e => !expired idleTimeout now e := by
    simp only [sweepIdle, Table.values, Table.entries_retain, List.filter_map]
    rfl
  rw [hvalues, ← List.map_append]
  exact (List.filter_append_perm (expired idleTimeout now) cache.values).symm.map _

theorem leases_append (a b : List AuthCall) : leases (a ++ b) = leases a ++ leases b :=
  List.filterMap_append

theorem liveTokens_append (a b : List AuthCall) :
    liveTokens (a ++ b) = Lease.after (liveTokens a) (leases b) := by
  rw [liveTokens, leases_append, Lease.after_append]
  rfl

theorem leases_sweepIdle (idleTimeout now : Int) (cache : Cache) :
    leases (sweepIdle idleTimeout now cache).2 =
      ((cache.values.filter (expired idleTimeout now)).map (·.token)).map .revoke := by
  simp only [leases, sweepIdle, List.filterMap_map, List.map_map]
  rw [← List.filterMap_eq_map]
  rfl

/-- Between two logouts of a token it is logged in again. -/
theorem login_between {calls before between later : List AuthCall} {token : SessionToken}
    (h : Lease.Sound [] (leases calls))
    (hcalls : calls = before ++ .logout token :: (between ++ .logout token :: later)) :
    ∃ credentials, .login credentials token ∈ between := by
  have hsplit : leases (.logout token :: (between ++ .logout token :: later)) =
      .revoke token :: (leases between ++ .revoke token :: leases later) := by
    show Lease.Event.revoke token :: leases (between ++ .logout token :: later) = _
    rw [leases_append]
    rfl
  rw [hcalls, leases_append, hsplit] at h
  obtain ⟨c, hc, hlease⟩ := List.mem_filterMap.mp (Lease.granted_between List.nodup_nil h)
  cases c with
  | login credentials token' =>
    simp only [AuthCall.lease, Option.ite_none_left_eq_some, Option.some.injEq,
      Lease.Event.grant.injEq] at hlease
    exact ⟨credentials, hlease.2 ▸ hc⟩
  | logout token' => cases hlease

/-! ## The account -/

/-- The cache holds the live sessions, and the SDK has been called as it expects. -/
structure Accounts (s : Sessions) : Prop where
  live : (liveTokens s.calls).Perm (s.cache.values.map (·.token))
  sound : Lease.Sound [] (leases s.calls)
  opened : ∀ id e, s.cache.lookup id = some e → 0 ≤ e.token

namespace Accounts

variable {idleTimeout : Int} {s s' : Sessions} {r : Request}

theorem start : Accounts {} where
  live := List.Perm.refl _
  sound := trivial
  opened id e h := by cases h

theorem nodup (h : Accounts s) : (liveTokens s.calls).Nodup :=
  Lease.nodup_after List.nodup_nil h.sound

/-- The sweep logs out what it drops, and nothing else changes. -/
theorem sweep (h : Accounts s) (idleTimeout now : Int) :
    Accounts ⟨(sweepIdle idleTimeout now s.cache).1,
      s.calls ++ (sweepIdle idleTimeout now s.cache).2⟩ := by
  have hperm := h.live.trans (tokens_sweepIdle idleTimeout now s.cache)
  have hrevokes := Lease.revokes hperm
  rw [← leases_sweepIdle] at hrevokes
  constructor
  · rw [liveTokens_append]
    exact hrevokes.2
  · rw [leases_append, Lease.sound_append]
    exact ⟨h.sound, hrevokes.1⟩
  · intro id e he
    exact h.opened id e (lookup_swept.mp he).1

/-- A cached session is used again. -/
theorem touch {id : CameraIdentity} {e : Entry} (h : Accounts s) (he : s.cache.lookup id = some e)
    (now : Int) : Accounts { s with cache := s.cache.insert id { e with lastUsed := now } } := by
  refine ⟨?_, h.sound, ?_⟩
  · have hold := (Table.values_erase he).map (·.token)
    exact h.live.trans hold
  · intro id' e' he'
    rw [Table.lookup_insert_eq] at he'
    split at he'
    · obtain rfl := Option.some.inj he'
      exact h.opened id e he
    · exact h.opened id' e' he'

/-- A refused login is no session. -/
theorem refuse (h : Accounts s) (credentials : Credentials) {token : SessionToken}
    (ht : token < 0) : Accounts { s with calls := s.calls ++ [.login credentials token] } := by
  have hnone : leases [.login credentials token] = [] := by simp [leases, AuthCall.lease, ht]
  refine ⟨?_, ?_, h.opened⟩
  · rw [liveTokens_append, hnone]
    exact h.live
  · rw [leases_append, hnone, List.append_nil]
    exact h.sound

/-- A new session is entered under an identity that has none. -/
theorem enter (h : Accounts s) (credentials : Credentials) {id : CameraIdentity}
    {token : SessionToken} (ht : 0 ≤ token) (hid : s.cache.lookup id = none) (now : Int)
    (hfresh : token ∉ liveTokens s.calls) :
    Accounts ⟨s.cache.insert id ⟨token, now⟩, s.calls ++ [.login credentials token]⟩ := by
  have hone : leases [.login credentials token] = [.grant token] := by
    simp [leases, AuthCall.lease, Int.not_lt.mpr ht]
  constructor
  · rw [liveTokens_append, hone, Table.values_insert (AList.lookup_eq_none.mp hid)]
    exact h.live.cons token
  · rw [leases_append, hone, Lease.sound_append]
    exact ⟨h.sound, hfresh, trivial⟩
  · intro id' e' he'
    rw [Table.lookup_insert_eq] at he'
    split at he'
    · obtain rfl := Option.some.inj he'
      exact ht
    · exact h.opened id' e' he'

theorem step (h : Accounts s) (hs : (sessions idleTimeout).step r s = some s') : Accounts s' := by
  obtain ⟨hfresh, rfl⟩ := stepped hs
  have hswept := h.sweep idleTimeout r.env.sweepNow
  obtain ⟨token, cache, calls, hresult, hserved⟩ :=
    served_eq idleTimeout r.env r.credentials s.cache
  rw [Request.calls, hresult] at hfresh ⊢
  cases hserved with
  | cached he => exact hswept.touch he r.env.now
  | refused hnone hneg =>
    have := hswept.refuse r.credentials hneg
    rwa [List.append_assoc] at this
  | opened hnone hpos =>
    have hnew : token ∉ liveTokens (s.calls ++ (sweepIdle idleTimeout r.env.sweepNow s.cache).2) := by
      rw [leases_append, Lease.fresh_append, ← liveTokens_append] at hfresh
      have hone : leases [.login r.credentials token] = [.grant token] := by
        simp [leases, AuthCall.lease, Int.not_lt.mpr hpos]
      rw [hone] at hfresh
      exact hfresh.2.1
    have := hswept.enter r.credentials hpos hnone r.env.now hnew
    rwa [List.append_assoc] at this

end Accounts

theorem accounts {idleTimeout : Int} {s : Sessions}
    (h : (sessions idleTimeout).Reachable {} s) : Accounts s :=
  h.invariant Accounts.start fun _ _ _ hi hs => hi.step hs

/-! ## The time of the last use -/

/-- The latest request for `id` returned the token of `e`, at the time that `e` records. -/
def UsedLast (idleTimeout : Int) (older : List (Transition Sessions Request)) (id : CameraIdentity)
    (e : Entry) : Prop :=
  ∃ mid u rest, older = mid ++ u :: rest ∧ u.action.credentials.identity = id ∧
    u.action.result idleTimeout u.pre = e.token ∧ u.action.env.now = e.lastUsed ∧
    ∀ v ∈ mid, v.action.credentials.identity ≠ id

/-- An entry is of the request's own identity and has just been used, or was there before. -/
theorem lookup_step {idleTimeout : Int} {r : Request} {s s' : Sessions} {id : CameraIdentity}
    {e : Entry} (hs : (sessions idleTimeout).step r s = some s')
    (he : s'.cache.lookup id = some e) :
    (r.credentials.identity = id ∧ r.result idleTimeout s = e.token ∧ r.env.now = e.lastUsed) ∨
      (r.credentials.identity ≠ id ∧ s.cache.lookup id = some e) := by
  obtain ⟨-, rfl⟩ := stepped hs
  obtain ⟨token, cache, calls, hresult, hserved⟩ :=
    served_eq idleTimeout r.env r.credentials s.cache
  rw [hresult] at he
  rw [Request.result, hresult]
  cases hserved with
  | cached hold =>
    rw [Table.lookup_insert_eq] at he
    split at he
    · next hid =>
      obtain rfl := Option.some.inj he
      exact Or.inl ⟨hid.symm, rfl, rfl⟩
    · next hid => exact Or.inr ⟨Ne.symm hid, (lookup_swept.mp he).1⟩
  | refused hnone hneg =>
    refine Or.inr ⟨?_, (lookup_swept.mp he).1⟩
    rintro rfl
    rw [hnone] at he
    cases he
  | opened hnone hpos =>
    rw [Table.lookup_insert_eq] at he
    split at he
    · next hid =>
      obtain rfl := Option.some.inj he
      exact Or.inl ⟨hid.symm, rfl, rfl⟩
    · next hid => exact Or.inr ⟨Ne.symm hid, (lookup_swept.mp he).1⟩

theorem usedLast {idleTimeout : Int} {tr : List (Transition Sessions Request)} {s : Sessions}
    (h : (sessions idleTimeout).Run {} tr s) {id : CameraIdentity} {e : Entry}
    (he : s.cache.lookup id = some e) : UsedLast idleTimeout tr id e := by
  induction h with
  | nil => cases he
  | @next tr s s' r hr hs ih =>
    rcases lookup_step hs he with ⟨hid, htoken, hnow⟩ | ⟨hid, hold⟩
    · exact ⟨[], ⟨s, r, s'⟩, tr, rfl, hid, htoken, hnow, fun _ hv => nomatch hv⟩
    · obtain ⟨mid, u, rest, rfl, hu, htoken, hnow, hmid⟩ := ih hold
      refine ⟨⟨s, r, s'⟩ :: mid, u, rest, rfl, hu, htoken, hnow, fun v hv => ?_⟩
      rcases List.mem_cons.mp hv with rfl | hv
      · exact hid
      · exact hmid v hv

/-! ## Every request of every run -/

/-- The tokens of the sessions that the request finds idle for longer than the timeout,
each once. -/
def IdleTokens (idleTimeout : Int) (r : Request) (s : Sessions) (tokens : List SessionToken) :
    Prop :=
  tokens.Nodup ∧ ∀ token, token ∈ tokens ↔ ∃ id e, s.cache.lookup id = some e ∧
    e.token = token ∧ idleTimeout < r.env.sweepNow - e.lastUsed

/-- The account that one request leaves, after the requests `older`. -/
structure Accounted (idleTimeout : Int) (older : List (Transition Sessions Request))
    (t : Transition Sessions Request) : Prop where
  /-- The live tokens are the cached ones, each once. -/
  live : (liveTokens t.post.calls).Nodup ∧
    (liveTokens t.post.calls).Perm (t.post.cache.values.map (·.token))
  unshared : ∀ id id' e e', t.post.cache.lookup id = some e → t.post.cache.lookup id' = some e' →
    e.token = e'.token → id = id'
  logout_live : ∀ before token later, t.post.calls = before ++ .logout token :: later →
    token ∈ liveTokens before
  logout_once : ∀ before token between later,
    t.post.calls = before ++ .logout token :: (between ++ .logout token :: later) →
    ∃ credentials, .login credentials token ∈ between
  returned : 0 ≤ t.action.result idleTimeout t.pre →
    t.action.result idleTimeout t.pre ∈ liveTokens t.post.calls ∧
    ∃ e, t.post.cache.lookup t.action.credentials.identity = some e ∧
      e.token = t.action.result idleTimeout t.pre
  swept : ∀ id e, t.pre.cache.lookup id = some e → UsedLast idleTimeout older id e ∧
    ((t.action.swept idleTimeout t.pre).lookup id = none ↔
      idleTimeout < t.action.env.sweepNow - e.lastUsed) ∧
    ((t.action.swept idleTimeout t.pre).lookup id = some e ↔
      t.action.env.sweepNow - e.lastUsed ≤ idleTimeout)
  kept : ∀ id e, (t.action.swept idleTimeout t.pre).lookup id = some e →
    t.pre.cache.lookup id = some e
  /-- The request leaves the other identities as its sweep does. -/
  others : ∀ id, id ≠ t.action.credentials.identity →
    t.post.cache.lookup id = (t.action.swept idleTimeout t.pre).lookup id
  /-- The request logs out what its sweep drops. It logs in exactly when the sweep has left
  its identity without a session. -/
  called : ∃ dropped, IdleTokens idleTimeout t.action t.pre dropped ∧
    t.post.calls = t.pre.calls ++ (dropped.map .logout ++
      if ((t.action.swept idleTimeout t.pre).lookup t.action.credentials.identity).isSome then []
      else [.login t.action.credentials (t.action.result idleTimeout t.pre)])
  reused : ∀ e, (t.action.swept idleTimeout t.pre).lookup t.action.credentials.identity = some e →
    t.action.result idleTimeout t.pre = e.token ∧
    t.post.cache.lookup t.action.credentials.identity =
      some { e with lastUsed := t.action.env.now }
  entered : (t.action.swept idleTimeout t.pre).lookup t.action.credentials.identity = none →
    0 ≤ t.action.result idleTimeout t.pre →
    t.post.cache.lookup t.action.credentials.identity =
      some ⟨t.action.result idleTimeout t.pre, t.action.env.now⟩
  refused : t.action.result idleTimeout t.pre < 0 →
    t.post.cache = t.action.swept idleTimeout t.pre

theorem unshared_of_nodup {cache : Cache} (h : (cache.values.map (·.token)).Nodup)
    {id id' : CameraIdentity} {e e' : Entry} (he : cache.lookup id = some e)
    (he' : cache.lookup id' = some e') (ht : e.token = e'.token) : id = id' := by
  simp only [Table.values, List.map_map] at h
  have heq := List.inj_on_of_nodup_map h (AList.mem_lookup_iff.mp he)
    (AList.mem_lookup_iff.mp he') ht
  exact congrArg Sigma.fst heq

theorem swept_eq_none_iff {idleTimeout now : Int} {cache : Cache} {id : CameraIdentity} {e : Entry}
    (he : cache.lookup id = some e) :
    (sweepIdle idleTimeout now cache).1.lookup id = none ↔ idleTimeout < now - e.lastUsed := by
  rw [Option.eq_none_iff_forall_ne_some]
  constructor
  · intro h
    by_contra hkept
    exact h e (lookup_swept.mpr ⟨he, Int.not_lt.mp hkept⟩)
  · intro h e' he'
    obtain ⟨hold, hle⟩ := lookup_swept.mp he'
    obtain rfl := Option.some.inj (he.symm.trans hold)
    omega

/-- A request leaves the identities of the other cameras as its sweep does. -/
theorem lookup_other {idleTimeout : Int} {r : Request} {s s' : Sessions} {id : CameraIdentity}
    (hid : id ≠ r.credentials.identity) (hs : (sessions idleTimeout).step r s = some s') :
    s'.cache.lookup id = (r.swept idleTimeout s).lookup id := by
  obtain ⟨-, rfl⟩ := stepped hs
  obtain ⟨token, cache, calls, hresult, hserved⟩ :=
    served_eq idleTimeout r.env r.credentials s.cache
  rw [hresult]
  cases hserved with
  | cached he => exact AList.lookup_insert_ne hid
  | refused hnone hneg => rfl
  | opened hnone hpos => exact AList.lookup_insert_ne hid

/-- What the request does with the identity of its own camera: a session that the sweep has
kept is used again, and only where there is none a login is tried. -/
theorem lookup_own {idleTimeout : Int} {r : Request} {s s' : Sessions}
    (hs : (sessions idleTimeout).step r s = some s') :
    (∃ e, (r.swept idleTimeout s).lookup r.credentials.identity = some e ∧
        r.calls idleTimeout s = (sweepIdle idleTimeout r.env.sweepNow s.cache).2 ∧
        r.result idleTimeout s = e.token ∧
        s'.cache.lookup r.credentials.identity = some { e with lastUsed := r.env.now }) ∨
      ((r.swept idleTimeout s).lookup r.credentials.identity = none ∧
        r.calls idleTimeout s = (sweepIdle idleTimeout r.env.sweepNow s.cache).2 ++
          [.login r.credentials (r.result idleTimeout s)] ∧
        ((r.result idleTimeout s < 0 ∧ s'.cache = r.swept idleTimeout s) ∨
          (0 ≤ r.result idleTimeout s ∧ s'.cache.lookup r.credentials.identity =
            some ⟨r.result idleTimeout s, r.env.now⟩))) := by
  obtain ⟨-, rfl⟩ := stepped hs
  obtain ⟨token, cache, calls, hresult, hserved⟩ :=
    served_eq idleTimeout r.env r.credentials s.cache
  rw [Request.result, Request.calls, hresult]
  cases hserved with
  | cached he => exact Or.inl ⟨_, he, rfl, rfl, AList.lookup_insert _⟩
  | refused hnone hneg => exact Or.inr ⟨hnone, rfl, Or.inl ⟨hneg, rfl⟩⟩
  | opened hnone hpos => exact Or.inr ⟨hnone, rfl, Or.inr ⟨hpos, AList.lookup_insert _⟩⟩

/-- The result of a request, against the cache it leaves. -/
theorem result_step {idleTimeout : Int} {r : Request} {s s' : Sessions} (hi : Accounts s)
    (hs : (sessions idleTimeout).step r s = some s') :
    (r.result idleTimeout s < 0 ∧ s'.cache = r.swept idleTimeout s) ∨
      (0 ≤ r.result idleTimeout s ∧
        ∃ e, s'.cache.lookup r.credentials.identity = some e ∧
          e.token = r.result idleTimeout s) := by
  rcases lookup_own hs with ⟨e, he, -, htoken, hpost⟩ | ⟨-, -, hrefused | ⟨hpos, hpost⟩⟩
  · have hpos := hi.opened _ _ (lookup_swept.mp he).1
    exact Or.inr ⟨htoken ▸ hpos, _, hpost, htoken.symm⟩
  · exact Or.inl hrefused
  · exact Or.inr ⟨hpos, _, hpost, rfl⟩

/-- The sweep logs out the tokens of the sessions that it finds idle for too long. -/
theorem idleTokens_sweepIdle (idleTimeout : Int) (r : Request) {s : Sessions} (hi : Accounts s) :
    ∃ dropped, IdleTokens idleTimeout r s dropped ∧
      (sweepIdle idleTimeout r.env.sweepNow s.cache).2 = dropped.map .logout := by
  have hnodup : (s.cache.values.map (·.token)).Nodup := hi.live.nodup_iff.mp hi.nodup
  refine ⟨(s.cache.values.filter (expired idleTimeout r.env.sweepNow)).map (·.token), ⟨?_, ?_⟩, ?_⟩
  · exact hnodup.sublist (List.filter_sublist.map _)
  · intro token
    simp only [List.mem_map, List.mem_filter, Table.mem_values, expired, decide_eq_true_eq]
    constructor
    · rintro ⟨e, ⟨⟨id, hid⟩, hidle⟩, rfl⟩
      exact ⟨id, e, hid, rfl, by omega⟩
    · rintro ⟨id, e, hid, rfl, hidle⟩
      exact ⟨e, ⟨⟨id, hid⟩, by omega⟩, rfl⟩
  · rw [sweepIdle, List.map_map]
    rfl

/-- The calls of a request are the logouts of its sweep, and a login where the sweep has left
no session. -/
theorem calls_step {idleTimeout : Int} {r : Request} {s s' : Sessions} (hi : Accounts s)
    (hs : (sessions idleTimeout).step r s = some s') :
    ∃ dropped, IdleTokens idleTimeout r s dropped ∧ s'.calls = s.calls ++ (dropped.map .logout ++
      if ((r.swept idleTimeout s).lookup r.credentials.identity).isSome then []
      else [.login r.credentials (r.result idleTimeout s)]) := by
  obtain ⟨dropped, hdropped, hlogouts⟩ := idleTokens_sweepIdle idleTimeout r hi
  have hafter : s'.calls = s.calls ++ r.calls idleTimeout s := by rw [(stepped hs).2]
  refine ⟨dropped, hdropped, ?_⟩
  rw [hafter, ← hlogouts]
  rcases lookup_own hs with ⟨e, he, hcalls, -⟩ | ⟨hnone, hcalls, -⟩
  · rw [hcalls, he, Option.isSome_some, if_pos rfl, List.append_nil]
  · rw [hcalls, hnone, Option.isSome_none, if_neg Bool.false_ne_true]

/-- Every request of every run leaves the account in order. -/
theorem sessions_accounted {idleTimeout : Int} {newer older : List (Transition Sessions Request)}
    {t : Transition Sessions Request} {s : Sessions}
    (h : (sessions idleTimeout).Run {} (newer ++ t :: older) s) :
    Accounted idleTimeout older t := by
  obtain ⟨hr, hstep⟩ := h.split
  have hpre : Accounts t.pre := accounts hr.reachable
  have hpost : Accounts t.post := hpre.step hstep
  constructor
  · exact ⟨hpost.nodup, hpost.live⟩
  · intro id id' e e' he he' ht
    exact unshared_of_nodup (hpost.live.nodup_iff.mp hpost.nodup) he he' ht
  · intro before token later hcalls
    have hsound := hpost.sound
    rw [hcalls, leases_append, Lease.sound_append] at hsound
    exact hsound.2.1
  · intro before token between later hcalls
    exact login_between hpost.sound hcalls
  · intro hpos
    rcases result_step hpre hstep with ⟨hneg, -⟩ | ⟨-, e, he, htoken⟩
    · exact absurd hneg (Int.not_lt.mpr hpos)
    · refine ⟨?_, e, he, htoken⟩
      rw [hpost.live.mem_iff, ← htoken]
      exact List.mem_map_of_mem (Table.mem_values.mpr ⟨_, he⟩)
  · intro id e he
    refine ⟨usedLast hr he, swept_eq_none_iff he, ?_⟩
    rw [Request.swept, lookup_swept]
    exact and_iff_right he
  · intro id e he
    exact (lookup_swept.mp he).1
  · intro id hid
    exact lookup_other hid hstep
  · exact calls_step hpre hstep
  · intro e he
    rcases lookup_own hstep with ⟨e', he', -, hreused⟩ | ⟨hnone, -⟩
    · obtain rfl := Option.some.inj (he'.symm.trans he)
      exact hreused
    · rw [he] at hnone
      cases hnone
  · intro hnone hpos
    rcases lookup_own hstep with ⟨e, he, -⟩ | ⟨-, -, ⟨hneg, -⟩ | ⟨-, hentered⟩⟩
    · rw [he] at hnone
      cases hnone
    · exact absurd hneg (Int.not_lt.mpr hpos)
    · exact hentered
  · intro hneg
    rcases result_step hpre hstep with ⟨-, hcache⟩ | ⟨hpos, -⟩
    · exact hcache
    · exact absurd hneg (Int.not_lt.mpr hpos)

/-- Two cameras, the second asked for again within the timeout and the first after it; the
old session of the first goes. -/
def idleGap : List Request :=
  let first : Credentials := { ip := "10.0.0.1", user := "admin", pass := "" }
  let second : Credentials := { ip := "10.0.0.2", user := "admin", pass := "" }
  [⟨⟨0, 0, fun _ => 7⟩, first⟩, ⟨⟨200, 200, fun _ => 8⟩, second⟩,
    ⟨⟨300, 300, fun _ => 9⟩, second⟩, ⟨⟨400, 401, fun _ => 7⟩, first⟩,
    ⟨⟨800, 800, fun _ => -1⟩, second⟩]

theorem sessions_accounted_idleGap :
    ∃ h : ((sessions 300).replay {} idleGap).isSome = true,
      (((sessions 300).replay {} idleGap).get h).1.length = 5 ∧ ∀ newer t older,
        (((sessions 300).replay {} idleGap).get h).1 = newer ++ t :: older →
          Accounted 300 older t := by
  have hsome : ((sessions 300).replay {} idleGap).isSome = true := by decide
  refine ⟨hsome, by decide +revert, fun newer t older he => ?_⟩
  have hrun := System.run_get hsome
  rw [he] at hrun
  exact sessions_accounted hrun

end LoginUseCase

end VisionPlayback
