import VisionPlayback.Processor.Ownership

/-!
# Sessions that downloads use

The sweep of any camera's request looks at the time of the last login request of
each session, and not at the downloads that still use it.
-/

namespace VisionPlayback.Machine

open Lib StreamCache

/-- No session is logged out while a job in state Downloading runs a downloader
that uses it. -/
def SessionsKept (t : Transition Machine Action) : Prop :=
  ∀ token, .auth (.logout token) ∈ t.post.calls → ∀ k job w,
    t.pre.activeJobs.lookup k = some job → job.state = .downloading → w ∈ t.pre.downloaders →
    job.downloader = some w.id → w.request.token ≠ token

/-- When a request comes to the login, the sessions of the running downloads have
been asked for within the idle time. -/
def SessionsFresh (cfg : Config) (t : Transition Machine Action) : Prop :=
  ∀ env r q, t.action = .handle env → t.pre.queue = .playbackRequested r :: q →
    dashExists r.key t.pre.disk = false → r.key ∉ t.pre.activeJobs →
    ∀ w ∈ t.pre.downloaders, ∀ id e, t.pre.loginCache.lookup id = some e →
      e.token = w.request.token → env.login.sweepNow - cfg.loginIdle ≤ e.lastUsed

variable {cfg : Config} {env : Env} {m m' : Machine}

theorem mem_calls_of_login {r : PlaybackRequest} {c : AuthCall}
    (h : Dispatched cfg env m m' (.playbackRequested r))
    (hdash : dashExists r.key m.disk = false) (hjob : r.key ∉ m.activeJobs)
    (hc : c ∈ (LoginUseCase.ensureLoggedIn cfg.loginIdle env.login r.credentials
      m.loginCache).2.2) : .auth c ∈ m'.calls := by
  cases h with
  | playbackRequested hs =>
    cases hs with
    | ready hd => rw [hdash] at hd; cases hd
    | active hd hj => exact absurd hj hjob
    | refused hd hj hlogin ht =>
      rw [hlogin] at hc
      simp [statusChanged, call, afterLogin, hc]
    | shortcut hd hj hlogin ht hm =>
      rw [hlogin] at hc
      simp [statusChanged, call, afterLogin, launchPackager, hc]
    | download hd hj hlogin ht hm =>
      rw [hlogin] at hc
      simp [afterLogin, launchDownloader, hc]

/-- A session in use is kept exactly when its last login request is recent enough. -/
theorem sessionsKept_iff {d : Disk} {tr : List (Transition Machine Action)}
    (h : (system cfg).Run (start d) tr m) : ∀ t ∈ tr, SessionsKept t ↔ SessionsFresh cfg t := by
  intro t ht
  obtain ⟨hr, hstep⟩ := h.transition ht
  have hi : Ownership t.pre := ownership hr
  constructor
  · intro hp env r q ha hq hdash hjob w hw id e he htoken
    rw [show (system cfg).step = step cfg from rfl, ha] at hstep
    cases stepped hstep with
    | handle hq' hclock hs =>
      obtain ⟨rfl, rfl⟩ := List.cons.inj (hq.symm.trans hq')
      by_contra hold
      have hout : AuthCall.logout e.token ∈ (LoginUseCase.ensureLoggedIn cfg.loginIdle env.login
          r.credentials t.pre.loginCache).2.2 :=
        LoginUseCase.mem_logout_ensureLoggedIn.mpr ⟨id, e, he, rfl, by omega⟩
      have hcall := mem_calls_of_login hs hdash hjob hout
      obtain ⟨-, -, job, hj, -, howns⟩ := hi.of_mem (mem_tokens_of_downloader hw)
      exact hp e.token hcall _ job w hj howns.1 hw howns.2.1 htoken.symm
  · intro hc token hmem k job w hj hstate hw hdl htoken
    obtain ⟨env, e, q, ha, hq, -, hcalled⟩ := called_of_step hstep hmem
    cases hcalled with
    | auth hdash hjob hout =>
      obtain ⟨id, e, he, het, hlt⟩ := LoginUseCase.mem_logout_ensureLoggedIn.mp hout
      have hfresh := hc env _ q ha hq hdash hjob w hw id e he (het.trans htoken.symm)
      have hlt : e.lastUsed < env.login.sweepNow - cfg.loginIdle := hlt
      omega

/-- A camera is asked for once, its download runs on, and another camera is asked
for after the idle time. -/
def longDownload : List Action :=
  [.post (Sample.request "00000000000000aa"), .handle Sample.env,
    .post { Sample.request "00000000000000bb" with
      credentials := { ip := "10.0.0.2", user := "admin", pass := "" } },
    .handle { Sample.env with login := { sweepNow := 900, now := 900, login := fun _ => 8 } }]

theorem sessionsKept_iff_longDownload :
    ∃ h : ((system Sample.config).replay (start {}) longDownload).isSome = true,
      ∀ t ∈ (((system Sample.config).replay (start {}) longDownload).get h).1,
        SessionsKept t ↔ SessionsFresh Sample.config t :=
  ⟨by decide, sessionsKept_iff (System.run_get _)⟩

theorem not_sessionsKept : ¬ ∀ (cfg : Config) (d : Disk) (tr : List (Transition Machine Action))
    (m : Machine), (system cfg).Run (start d) tr m → ∀ t ∈ tr, SessionsKept t := by
  intro hall
  have hsome : ((system Sample.config).replay (start {}) longDownload).isSome = true := by decide
  have hne : (((system Sample.config).replay (start {}) longDownload).get hsome).1 ≠ [] := by
    decide +revert
  refine hall _ _ _ _ (System.run_get hsome) _ (List.head_mem hne) 7 (by decide +revert)
    ⟨"00000000000000aa"⟩ (downloadJob 0 (Sample.request "00000000000000aa"))
    (Sample.downloader 0 "00000000000000aa") (by decide +revert) rfl (by decide +revert) rfl rfl

end VisionPlayback.Machine
