import VisionPlayback.CameraSessions
import VisionPlayback.Processor.Sessions

/-!
# When a camera is logged in to again

A failed download leaves the login cache alone. The next request for the camera
logs in exactly when the sweep has dropped the session, and every request in
between has put that off.
-/

namespace VisionPlayback

open Lib StreamCache

namespace LoginUseCase

section Request

variable {idleTimeout : Int} {env : Env} {credentials : Credentials} {cache : Cache}

theorem login_notMem_sweepIdle {now : Int} {c : Credentials} {token : SessionToken} :
    .login c token ∉ (sweepIdle idleTimeout now cache).2 := by
  simp [sweepIdle]

variable (idleTimeout env credentials cache) in
/-- A request logs in exactly when the sweep leaves no session of its camera. -/
theorem logs_in_iff :
    (∃ c token, .login c token ∈ (ensureLoggedIn idleTimeout env credentials cache).2.2) ↔
      (sweepIdle idleTimeout env.sweepNow cache).1.lookup credentials.identity = none := by
  obtain ⟨token, cache', calls, hresult, hserved⟩ := served_eq idleTimeout env credentials cache
  rw [hresult]
  cases hserved with
  | cached he =>
    rw [he]
    exact iff_of_false (fun ⟨_, _, hc⟩ => login_notMem_sweepIdle hc) (by simp)
  | refused hnone | opened hnone =>
    exact iff_of_true ⟨credentials, token, List.mem_append_right _ List.mem_cons_self⟩ hnone

/-- Unless the login is refused, the session of the camera has just been used. -/
theorem used_of_not_refused
    (h : ∀ c token, .login c token ∈ (ensureLoggedIn idleTimeout env credentials cache).2.2 →
      0 ≤ token) :
    ∃ e, (ensureLoggedIn idleTimeout env credentials cache).2.1.lookup credentials.identity =
      some e ∧ e.lastUsed = env.now := by
  obtain ⟨token, cache', calls, hresult, hserved⟩ := served_eq idleTimeout env credentials cache
  rw [hresult] at h ⊢
  cases hserved with
  | cached he | opened hnone hpos => exact ⟨_, AList.lookup_insert _, rfl⟩
  | refused hnone hneg =>
    have hpos := h credentials token (List.mem_append_right _ List.mem_cons_self)
    exact absurd hneg (Int.not_lt.mpr hpos)

/-- A session is of this request, which was not refused, or it was there before. -/
theorem lookup_ensureLoggedIn {id : CameraIdentity} {e : Entry}
    (he : (ensureLoggedIn idleTimeout env credentials cache).2.1.lookup id = some e) :
    (id = credentials.identity ∧ e.lastUsed = env.now ∧ ∀ c token,
        .login c token ∈ (ensureLoggedIn idleTimeout env credentials cache).2.2 → 0 ≤ token) ∨
      cache.lookup id = some e := by
  obtain ⟨token, cache', calls, hresult, hserved⟩ := served_eq idleTimeout env credentials cache
  rw [hresult] at he ⊢
  cases hserved with
  | cached hold =>
    rw [Table.lookup_insert_eq] at he
    split at he
    · next hid =>
      obtain rfl := Option.some.inj he
      exact Or.inl ⟨hid, rfl, fun c token hc => absurd hc login_notMem_sweepIdle⟩
    · exact Or.inr (lookup_swept.mp he).1
  | refused hnone hneg => exact Or.inr (lookup_swept.mp he).1
  | opened hnone hpos =>
    rw [Table.lookup_insert_eq] at he
    split at he
    · next hid =>
      obtain rfl := Option.some.inj he
      refine Or.inl ⟨hid, rfl, fun c token' hc => ?_⟩
      rcases List.mem_append.mp hc with hc | hc
      · exact absurd hc login_notMem_sweepIdle
      · obtain ⟨rfl, rfl⟩ := AuthCall.login.inj (List.mem_singleton.mp hc)
        exact hpos
    · exact Or.inr (lookup_swept.mp he).1

variable (idleTimeout credentials) in
/-- A session is kept, with a use that is no older, or its idle time has run out. -/
theorem kept_or_idle {id : CameraIdentity} {e : Entry} (he : cache.lookup id = some e)
    (hnow : e.lastUsed ≤ env.now) :
    (∃ e', (ensureLoggedIn idleTimeout env credentials cache).2.1.lookup id = some e' ∧
        e.lastUsed ≤ e'.lastUsed) ∨
      e.lastUsed + idleTimeout < env.sweepNow := by
  by_cases hidle : e.lastUsed + idleTimeout < env.sweepNow
  · exact Or.inr hidle
  have hkept := lookup_swept.mpr ⟨he, show env.sweepNow - e.lastUsed ≤ idleTimeout by omega⟩
  obtain ⟨token, cache', calls, hresult, hserved⟩ := served_eq idleTimeout env credentials cache
  rw [hresult]
  refine Or.inl ?_
  cases hserved with
  | refused hnone hneg => exact ⟨e, hkept, Int.le_refl _⟩
  | @cached e' hold =>
    by_cases hid : id = credentials.identity
    · exact ⟨{ e' with lastUsed := env.now }, hid ▸ AList.lookup_insert _, hnow⟩
    · exact ⟨e, (AList.lookup_insert_ne hid).trans hkept, Int.le_refl _⟩
  | opened hnone hpos =>
    have hid : id ≠ credentials.identity := by
      rintro rfl
      rw [hnone] at hkept
      cases hkept
    exact ⟨e, (AList.lookup_insert_ne hid).trans hkept, Int.le_refl _⟩

end Request

end LoginUseCase

namespace Machine

/-- The slot of `t` comes to the login of the camera `id`. -/
def AsksLogin (t : Transition Machine Action) (env : Env) (id : CameraIdentity) : Prop :=
  t.action = .handle env ∧ ∃ r q, t.pre.queue = .playbackRequested r :: q ∧
    dashExists r.key t.pre.disk = false ∧ r.key ∉ t.pre.activeJobs ∧ r.credentials.identity = id

def LogsIn (t : Transition Machine Action) : Prop :=
  ∃ c token, .auth (.login c token) ∈ t.post.calls

/-- The camera `id` is asked for, and it does not refuse. -/
def GetsSession (t : Transition Machine Action) (env : Env) (id : CameraIdentity) : Prop :=
  AsksLogin t env id ∧ ∀ c token, .auth (.login c token) ∈ t.post.calls → 0 ≤ token

def Action.restarts : Action → Bool
  | .restart => true
  | .post _ | .access _ | .requestExport _ _ _ _ | .dropExport _ | .handle _ | .downloadWrite _ _
  | .downloadExit _ _ _ | .packageWrite _ _ | .packageExit _ _ _ | .exportWrite _ _
  | .exportExit _ _ _ => false

/-- The transitions of the running process, of a run's. -/
def sinceRestart (tr : List (Transition Machine Action)) : List (Transition Machine Action) :=
  tr.takeWhile fun t => !t.action.restarts

variable {cfg : Config} {m m' : Machine} {t : Transition Machine Action} {env : Env}
  {id : CameraIdentity}

/-! ## What a slot does to the login cache -/

theorem Dispatched.steadyNow_eq {e : Event} (h : Dispatched cfg env m m' e) :
    m'.steadyNow = m.steadyNow := by
  cases h with
  | playbackRequested hs => cases hs <;> rfl
  | keyAccessed hs => rw [hs]; rfl
  | exportRequested hs => cases hs <;> rfl
  | downloadFinished hs => cases hs <;> rfl
  | packageFinished hs => cases hs <;> rfl
  | exportDone hs => cases hs <;> rfl

theorem Dispatched.loginCache_of_login {r : PlaybackRequest}
    (h : Dispatched cfg env m m' (.playbackRequested r))
    (hdash : dashExists r.key m.disk = false) (hjob : r.key ∉ m.activeJobs) :
    m'.loginCache = (LoginUseCase.ensureLoggedIn cfg.loginIdle env.login r.credentials
      m.loginCache).2.1 := by
  cases h with
  | playbackRequested hs =>
    cases hs with
    | ready hd => exact absurd (hdash.symm.trans hd) Bool.false_ne_true
    | active hd hj => exact absurd hj hjob
    | refused hd hj hlogin ht | shortcut hd hj hlogin ht | download hd hj hlogin ht =>
      exact (congrArg (·.2.1) hlogin).symm

theorem Dispatched.loginCache_eq {e : Event} (h : Dispatched cfg env m m' e)
    (hno : ∀ r, e = .playbackRequested r → dashExists r.key m.disk = false →
      r.key ∈ m.activeJobs) : m'.loginCache = m.loginCache := by
  cases h with
  | playbackRequested hs =>
    cases hs with
    | ready | active => rfl
    | refused hdash hjob | shortcut hdash hjob | download hdash hjob =>
      exact absurd (hno _ rfl hdash) hjob
  | keyAccessed hs => rw [hs]; rfl
  | exportRequested hs => cases hs <;> rfl
  | downloadFinished hs => cases hs <;> rfl
  | packageFinished hs => cases hs <;> rfl
  | exportDone hs => cases hs <;> rfl

/-- A slot that comes to the login leaves the cache and the calls of the login. -/
structure Asked (cfg : Config) (t : Transition Machine Action) (env : Env)
    (credentials : Credentials) : Prop where
  cache : t.post.loginCache = (LoginUseCase.ensureLoggedIn cfg.loginIdle env.login credentials
    t.pre.loginCache).2.1
  calls : ∀ c, .auth c ∈ t.post.calls ↔ c ∈ (LoginUseCase.ensureLoggedIn cfg.loginIdle env.login
    credentials t.pre.loginCache).2.2
  clock : t.pre.steadyNow ≤ env.login.sweepNow ∧ env.login.sweepNow ≤ env.login.now ∧
    t.post.steadyNow = env.login.now

theorem asked (hs : step cfg t.action t.pre = some t.post) (h : AsksLogin t env id) :
    ∃ credentials, credentials.identity = id ∧ Asked cfg t env credentials := by
  obtain ⟨ha, r, q, hq, hdash, hjob, hid⟩ := h
  refine ⟨r.credentials, hid, ?_⟩
  rw [ha] at hs
  cases stepped hs with
  | handle hq' hclock hd =>
    obtain ⟨rfl, rfl⟩ := List.cons.inj (hq.symm.trans hq')
    refine ⟨hd.loginCache_of_login hdash hjob, fun c => ⟨fun hc => ?_, ?_⟩, hclock.1, hclock.2,
      hd.steadyNow_eq⟩
    · have hcalled := called hd rfl hc
      cases hcalled with
      | auth _ _ hc => exact hc
    · exact mem_calls_of_login (m := t.pre.popped env _) hd hdash hjob

/-- Every other step but a restart leaves the login cache as it is. -/
theorem loginCache_of_not_asked (hs : step cfg t.action t.pre = some t.post)
    (h : ∀ env id, ¬ AsksLogin t env id) (hr : t.action.restarts = false) :
    t.post.loginCache = t.pre.loginCache ∧ t.pre.steadyNow ≤ t.post.steadyNow := by
  obtain ⟨pre, a, post⟩ := t
  have hs : step cfg a pre = some post := hs
  cases stepped hs with
  | @handle env e q m' hq hclock hd =>
    constructor
    · refine hd.loginCache_eq fun r he hdash => ?_
      by_contra hjob
      exact h env r.credentials.identity ⟨rfl, r, q, he ▸ hq, hdash, hjob, rfl⟩
    · rw [hd.steadyNow_eq]
      exact hclock.1.trans hclock.2
  | restart => cases hr
  | post | access | requestExport | dropExport | downloadWrite | downloadExit | packageWrite
  | packageExit | exportWrite | exportExit => exact ⟨rfl, Int.le_refl _⟩

/-! ## The cache against the history -/

theorem sinceRestart_cons {tr : List (Transition Machine Action)} (h : t.action.restarts = false) :
    sinceRestart (t :: tr) = t :: sinceRestart tr :=
  List.takeWhile_cons_of_pos (by rw [h]; rfl)

theorem AsksLogin.unique {env' : Env} {id' : CameraIdentity} (h : AsksLogin t env id)
    (h' : AsksLogin t env' id') : env' = env ∧ id' = id := by
  obtain ⟨ha, r, q, hq, -, -, rfl⟩ := h
  obtain ⟨ha', r', q', hq', -, -, rfl⟩ := h'
  obtain ⟨he, rfl⟩ := List.cons.inj (hq'.symm.trans hq)
  exact ⟨Action.handle.inj (ha'.symm.trans ha), by rw [Event.playbackRequested.inj he]⟩

theorem AsksLogin.not_restarts (h : AsksLogin t env id) : t.action.restarts = false := by
  rw [h.1]
  rfl

/-- The login cache of `m`, of the requests since the last restart. -/
structure Remembers (cfg : Config) (before : List (Transition Machine Action)) (m : Machine) :
    Prop where
  /-- The last use of a session is a request that got it. -/
  used : ∀ id e, m.loginCache.lookup id = some e →
    ∃ u ∈ sinceRestart before, ∃ env, GetsSession u env id ∧ env.login.now = e.lastUsed
  /-- A session that was got is still there, or its idle time has run out. -/
  kept : ∀ u ∈ sinceRestart before, ∀ env id, GetsSession u env id →
    (∃ e, m.loginCache.lookup id = some e ∧ env.login.now ≤ e.lastUsed) ∨
      env.login.now + cfg.loginIdle < m.steadyNow
  past : ∀ id e, m.loginCache.lookup id = some e → e.lastUsed ≤ m.steadyNow

variable {before : List (Transition Machine Action)}

theorem Remembers.start (d : Disk) : Remembers cfg [] (start d) where
  used id e he := by cases he
  kept u hu := absurd hu List.not_mem_nil
  past id e he := by cases he

theorem Remembers.restarted (hr : t.action.restarts = true) (hc : m.loginCache = ∅) :
    Remembers cfg (t :: before) m := by
  have hnone : sinceRestart (t :: before) = [] :=
    List.takeWhile_cons_of_neg (by rw [hr]; exact Bool.false_ne_true)
  constructor
  · intro id e he
    rw [hc] at he
    cases he
  · rw [hnone]
    exact fun u hu => absurd hu List.not_mem_nil
  · intro id e he
    rw [hc] at he
    cases he

theorem Remembers.quiet (hi : Remembers cfg before t.pre)
    (hs : step cfg t.action t.pre = some t.post) (h : ∀ env id, ¬ AsksLogin t env id)
    (hr : t.action.restarts = false) : Remembers cfg (t :: before) t.post := by
  obtain ⟨hcache, hclock⟩ := loginCache_of_not_asked hs h hr
  constructor
  · intro id e he
    rw [hcache] at he
    obtain ⟨u, hu, env, hget, hnow⟩ := hi.used id e he
    rw [sinceRestart_cons hr]
    exact ⟨u, List.mem_cons_of_mem _ hu, env, hget, hnow⟩
  · intro u hu env id hget
    rw [sinceRestart_cons hr] at hu
    rcases List.mem_cons.mp hu with rfl | hu
    · exact absurd hget.1 (h env id)
    · rw [hcache]
      exact (hi.kept u hu env id hget).imp_right fun hidle => by omega
  · intro id e he
    rw [hcache] at he
    exact (hi.past id e he).trans hclock

theorem Remembers.asked (hi : Remembers cfg before t.pre)
    (hs : step cfg t.action t.pre = some t.post) (h : AsksLogin t env id) :
    Remembers cfg (t :: before) t.post := by
  obtain ⟨credentials, rfl, hcache, hcalls, hsweep, hnow, hpost⟩ := Machine.asked hs h
  have hgets : (∀ c token, .login c token ∈ (LoginUseCase.ensureLoggedIn cfg.loginIdle env.login
      credentials t.pre.loginCache).2.2 → 0 ≤ token) ↔
      GetsSession t env credentials.identity := by
    simp only [GetsSession, h, true_and, hcalls]
  rw [← hpost] at hnow
  constructor
  · intro id e he
    rw [hcache] at he
    rw [sinceRestart_cons h.not_restarts]
    rcases LoginUseCase.lookup_ensureLoggedIn he with ⟨rfl, hused, hlogin⟩ | hold
    · exact ⟨t, List.mem_cons_self, env, hgets.mp hlogin, hused.symm⟩
    · obtain ⟨u, hu, env', hget, hused⟩ := hi.used id e hold
      exact ⟨u, List.mem_cons_of_mem _ hu, env', hget, hused⟩
  · intro u hu env' id hget
    rw [sinceRestart_cons h.not_restarts] at hu
    rcases List.mem_cons.mp hu with rfl | hu
    · obtain ⟨rfl, rfl⟩ := h.unique hget.1
      obtain ⟨e, he, hused⟩ := LoginUseCase.used_of_not_refused (hgets.mpr hget)
      rw [← hcache] at he
      exact Or.inl ⟨e, he, hused.ge⟩
    · rcases hi.kept u hu env' id hget with ⟨e, he, hle⟩ | hidle
      · have hpast := hi.past id e he
        have hused : e.lastUsed ≤ env.login.now := by omega
        rcases LoginUseCase.kept_or_idle cfg.loginIdle credentials he hused with
          ⟨e', he', hle'⟩ | hidle
        · rw [← hcache] at he'
          exact Or.inl ⟨e', he', hle.trans hle'⟩
        · exact Or.inr (by omega)
      · exact Or.inr (by omega)
  · intro id e he
    rw [hcache] at he
    rcases LoginUseCase.lookup_ensureLoggedIn he with ⟨-, hused, -⟩ | hold
    · omega
    · have hpast := hi.past id e hold
      omega

theorem remembers {d : Disk} (h : (system cfg).Run (start d) before m) :
    Remembers cfg before m := by
  induction h with
  | nil => exact Remembers.start d
  | @next before m m' a hr hs ih =>
    by_cases hask : ∃ env id, AsksLogin ⟨m, a, m'⟩ env id
    · obtain ⟨env, id, hask⟩ := hask
      exact Remembers.asked ih hs hask
    · by_cases hrestart : a.restarts = true
      · refine Remembers.restarted hrestart ?_
        cases a with
        | restart =>
          obtain rfl := Option.some.inj hs
          rfl
        | post | access | requestExport | dropExport | handle | downloadWrite | downloadExit
        | packageWrite | packageExit | exportWrite | exportExit => cases hrestart
      · refine Remembers.quiet ih hs (fun env id h => hask ⟨env, id, h⟩) ?_
        exact Bool.eq_false_iff.mpr hrestart

/-- A request logs in exactly when every request of the running process that got the
session has been idle for too long. -/
theorem logsIn_iff {d : Disk} (hr : (system cfg).Run (start d) before t.pre)
    (hs : step cfg t.action t.pre = some t.post) (h : AsksLogin t env id) :
    LogsIn t ↔ ∀ u ∈ sinceRestart before, ∀ env', GetsSession u env' id →
      env'.login.now + cfg.loginIdle < env.login.sweepNow := by
  have hi := remembers hr
  obtain ⟨credentials, rfl, -, hcalls, hsweep, -, -⟩ := Machine.asked hs h
  have hlogs : LogsIn t ↔ (LoginUseCase.sweepIdle cfg.loginIdle env.login.sweepNow
      t.pre.loginCache).1.lookup credentials.identity = none := by
    rw [← LoginUseCase.logs_in_iff cfg.loginIdle env.login]
    simp only [LogsIn, hcalls]
  rw [hlogs]
  constructor
  · intro hnone u hu env' hget
    rcases hi.kept u hu env' _ hget with ⟨e, he, hle⟩ | hidle
    · have hexpired := (LoginUseCase.swept_eq_none_iff he).mp hnone
      omega
    · omega
  · intro hwait
    rw [Option.eq_none_iff_forall_ne_some]
    intro e he
    obtain ⟨hold, hrecent⟩ := LoginUseCase.lookup_swept.mp he
    obtain ⟨u, hu, env', hget, hused⟩ := hi.used _ e hold
    have hidle := hwait u hu env' hget
    omega

/-! ## Sessions that have been rejected -/

/-- The download `w` starts with the session that is cached for its camera. -/
def StartsWith (t : Transition Machine Action) (w : Downloader) : Prop :=
  .startDownload w ∈ t.post.calls ∧
    ∃ e, t.post.loginCache.lookup w.request.credentials.identity = some e ∧
      e.token = w.request.token

/-- The failure of the download `w` is handled. -/
def Fails (t : Transition Machine Action) (w : Downloader) : Prop :=
  ∃ env err q, t.action = .handle env ∧
    t.pre.queue = .downloadFinished w.id w.request.key false err :: q

/-- The first request after the failure of `w` that comes to the login of its camera. -/
structure Retries (before : List (Transition Machine Action)) (t : Transition Machine Action)
    (env : Env) (w : Downloader) : Prop where
  asks : AsksLogin t env w.request.credentials.identity
  failed : ∃ since f older, before = since ++ f :: older ∧ Fails f w ∧
    (∃ s ∈ older, StartsWith s w) ∧
    ∀ u ∈ since, ∀ env', ¬ AsksLogin u env' w.request.credentials.identity

/-- The request after a failure logs in, and does not use the cached session again. -/
def Renews (tr : List (Transition Machine Action)) : Prop :=
  ∀ newer t before, tr = newer ++ t :: before → ∀ env w, Retries before t env w → LogsIn t

/-- That request comes after the idle time of every earlier one of the running process that
got the session. -/
def RetriesLate (cfg : Config) (tr : List (Transition Machine Action)) : Prop :=
  ∀ newer t before, tr = newer ++ t :: before → ∀ env w, Retries before t env w →
    ∀ u ∈ sinceRestart before, ∀ env', GetsSession u env' w.request.credentials.identity →
      env'.login.now + cfg.loginIdle < env.login.sweepNow

theorem renews_iff {d : Disk} {tr : List (Transition Machine Action)}
    (h : (system cfg).Run (start d) tr m) : Renews tr ↔ RetriesLate cfg tr := by
  refine forall_congr' fun newer => forall_congr' fun t => forall_congr' fun before => ?_
  refine forall_congr' fun he => forall_congr' fun env => forall_congr' fun w => ?_
  refine forall_congr' fun hretry => ?_
  rw [he] at h
  obtain ⟨hr, hs⟩ := h.split
  exact logsIn_iff hr hs hretry.asks

/-- A download with a cached session fails, and its recording is asked for again. -/
def Sample.rejectedSession : List Action :=
  [.post (Sample.request "00000000000000aa"), .handle Sample.env,
    .post (Sample.request "00000000000000bb"), .handle Sample.env,
    .downloadExit (Sample.downloader 1 "00000000000000bb") false "invalid session",
    .handle Sample.env, .post (Sample.request "00000000000000bb"), .handle Sample.env]

theorem renews_iff_rejectedSession :
    ∃ h : ((system Sample.config).replay (start {}) Sample.rejectedSession).isSome = true,
      let tr := (((system Sample.config).replay (start {}) Sample.rejectedSession).get h).1
      Renews tr ↔ RetriesLate Sample.config tr :=
  ⟨by decide, renews_iff (System.run_get _)⟩

theorem not_renews : ¬ ∀ (cfg : Config) (d : Disk) (tr : List (Transition Machine Action))
    (m : Machine), (system cfg).Run (start d) tr m → Renews tr := by
  intro hall
  have hsome : ((system Sample.config).replay (start {}) Sample.rejectedSession).isSome = true := by
    decide
  have hrenews := hall _ _ _ _ (System.run_get hsome)
  obtain ⟨t, p, f, x, s, rest, htr, hcalls, hasks, hpost, hfails, hstarts⟩ : ∃ t p f x s rest,
      (((system Sample.config).replay (start {}) Sample.rejectedSession).get hsome).1 =
        t :: p :: f :: x :: s :: rest ∧
      t.post.calls = [.emplaceJob ⟨"00000000000000bb"⟩ true,
        .emit (.statusChanged "00000000000000bb" .downloading ""),
        .startDownload (Sample.downloader 2 "00000000000000bb")] ∧
      AsksLogin t Sample.env (Sample.request "").credentials.identity ∧
      p.action = .post (Sample.request "00000000000000bb") ∧
      Fails f (Sample.downloader 1 "00000000000000bb") ∧
      StartsWith s (Sample.downloader 1 "00000000000000bb") := by
    refine ⟨_, _, _, _, _, _, rfl, by decide +revert,
      ⟨rfl, Sample.request "00000000000000bb", [], by decide +revert, by decide +revert,
        by decide +revert, rfl⟩, rfl,
      ⟨Sample.env, "invalid session", [], rfl, by decide +revert⟩,
      by decide +revert, ⟨7, 0⟩, by decide +revert, rfl⟩
  have hretries : Retries (p :: f :: x :: s :: rest) t Sample.env
      (Sample.downloader 1 "00000000000000bb") := by
    refine ⟨hasks, [p], f, x :: s :: rest, rfl, hfails,
      ⟨s, List.mem_cons_of_mem _ List.mem_cons_self, hstarts⟩, fun u hu env' hask => ?_⟩
    rw [List.mem_singleton.mp hu] at hask
    cases hpost.symm.trans hask.1
  obtain ⟨c, token, hlogin⟩ := hrenews [] t _ htr Sample.env _ hretries
  rw [hcalls] at hlogin
  simp at hlogin

end Machine

end VisionPlayback
