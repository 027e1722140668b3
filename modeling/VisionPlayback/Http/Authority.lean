import VisionPlayback.CameraSessions
import VisionPlayback.Http.Daemon

/-!
# On whose behalf

Whatever the processor does to a camera, to a worker or to the disk goes back to a request
that has passed the checks of the listener, and it does no more for a request than the
request asks for.
-/

namespace VisionPlayback

open Lib StreamCache

/-- What has happened so far that work may go back to. -/
structure Grounds where
  /-- A POST has been accepted with this request. -/
  posted : PlaybackRequest → Prop
  /-- A camera has opened this session. -/
  granted : CameraIdentity → SessionToken → Prop
  /-- A download has been accepted that asks for this clip. -/
  asked : ClipExport → Prop

namespace Grounds

/-- What a call needs to be justified. -/
def Allow (g : Grounds) : Call → Prop
  | .auth (.login credentials _) => ∃ r, g.posted r ∧ r.credentials = credentials
  | .auth (.logout token) => ∃ id, g.granted id token
  | .emplaceJob key _ => ∃ r, g.posted r ∧ r.key = key
  | .startDownload w => ∃ r, g.posted r ∧ w.request = { r with token := w.request.token } ∧
      w.outputPath = mp4Path r.key ∧ g.granted r.credentials.identity w.request.token
  | .package w => ∃ r, g.posted r ∧ w.key = r.key ∧ w.mp4Path = mp4Path r.key ∧
      w.outputDir = dashDir r.key
  | .exportClip w => g.asked w
  | .emit (.statusChanged keyHex _ _) => ∃ r, g.posted r ∧ r.key.hex = keyHex
  | .emit (.exportFinished _ _ _ _) => True
  | .removed hex => matchesHex16 hex = true

structure Extends (g' g : Grounds) : Prop where
  posted : ∀ r, g.posted r → g'.posted r
  granted : ∀ id token, g.granted id token → g'.granted id token
  asked : ∀ w, g.asked w → g'.asked w

/-- The logins among some calls have opened sessions. -/
def Opens (g : Grounds) (calls : List Call) : Prop :=
  ∀ c token, .auth (.login c token) ∈ calls → 0 ≤ token → g.granted c.identity token

theorem Opens.mono {g : Grounds} {cs cs' : List Call} (h : g.Opens cs) (hc : ∀ c ∈ cs', c ∈ cs) :
    g.Opens cs' :=
  fun c token hmem hpos => h c token (hc _ hmem) hpos

end Grounds

namespace Machine

variable {cfg : Config} {env : Env} {m m' : Machine} {g g' : Grounds}

/-- What is queued, running or remembered has its grounds. -/
structure Grounded (g : Grounds) (m : Machine) : Prop where
  requests : ∀ r, .playbackRequested r ∈ m.queue → g.posted r
  clips : ∀ id hex startSec endSec, .exportRequested id hex startSec endSec ∈ m.queue →
    g.asked (clipExport id hex startSec endSec)
  jobs : ∀ k ∈ m.activeJobs, ∃ r, g.posted r ∧ r.key = k
  sessions : ∀ id e, m.loginCache.lookup id = some e → g.granted id e.token

theorem Grounded.start (d : Disk) : Grounded g (start d) where
  requests r h := by cases h
  clips id hex startSec endSec h := by cases h
  jobs k h := by cases h
  sessions id e h := by cases h

theorem Grounded.mono (hi : Grounded g m) (h : g'.Extends g) : Grounded g' m where
  requests r hr := h.posted r (hi.requests r hr)
  clips id hex startSec endSec he := h.asked _ (hi.clips id hex startSec endSec he)
  jobs k hk := by
    obtain ⟨r, hr, he⟩ := hi.jobs k hk
    exact ⟨r, h.posted r hr, he⟩
  sessions id e he := h.granted id _ (hi.sessions id e he)

theorem Grounded.frame (hi : Grounded g m) (hq : ∀ e ∈ m'.queue, e ∈ m.queue)
    (hj : ∀ k ∈ m'.activeJobs, k ∈ m.activeJobs) (hc : m'.loginCache = m.loginCache) :
    Grounded g m' where
  requests r hr := hi.requests r (hq _ hr)
  clips id hex startSec endSec he := hi.clips id hex startSec endSec (hq _ he)
  jobs k hk := hi.jobs k (hj k hk)
  sessions id e he := by
    rw [hc] at he
    exact hi.sessions id e he

/-! ## The login of a request -/

section Login

variable {r : PlaybackRequest} {token : SessionToken} {cache : LoginUseCase.Cache}
  {calls : List AuthCall}

theorem login_cases (hlogin : LoginUseCase.ensureLoggedIn cfg.loginIdle env.login r.credentials
      m.loginCache = (token, cache, calls)) :
    LoginUseCase.Served env.login r.credentials
      (LoginUseCase.sweepIdle cfg.loginIdle env.login.sweepNow m.loginCache).1
      (LoginUseCase.sweepIdle cfg.loginIdle env.login.sweepNow m.loginCache).2 token cache calls := by
  have hserved := LoginUseCase.served cfg.loginIdle env.login r.credentials m.loginCache
  rw [hlogin] at hserved
  exact hserved

/-- The sweep only logs out. -/
theorem logout_of_mem_swept {idleTimeout now : Int} {c : AuthCall}
    {cache : LoginUseCase.Cache} (h : c ∈ (LoginUseCase.sweepIdle idleTimeout now cache).2) :
    ∃ id e, c = .logout e.token ∧ cache.lookup id = some e := by
  obtain ⟨e, he, rfl⟩ := List.mem_map.mp h
  obtain ⟨id, hid⟩ := Table.mem_values.mp (List.mem_of_mem_filter he)
  exact ⟨id, e, rfl, hid⟩

theorem Grounded.login_allowed (hi : Grounded g m) (hr : g.posted r)
    (hlogin : LoginUseCase.ensureLoggedIn cfg.loginIdle env.login r.credentials
      m.loginCache = (token, cache, calls)) : ∀ c ∈ calls, g.Allow (.auth c) := by
  have hswept : ∀ c ∈ (LoginUseCase.sweepIdle cfg.loginIdle env.login.sweepNow m.loginCache).2,
      g.Allow (.auth c) := by
    intro c hc
    obtain ⟨id, e, rfl, he⟩ := logout_of_mem_swept hc
    exact ⟨id, hi.sessions id e he⟩
  intro c hc
  cases login_cases hlogin with
  | cached he => exact hswept c hc
  | refused | opened =>
    rcases List.mem_append.mp hc with hc | hc
    · exact hswept c hc
    · rw [List.mem_singleton.mp hc]
      exact ⟨r, hr, rfl⟩

/-- The token of a request is of a session of its own camera. -/
theorem Grounded.token_granted (hi : Grounded g m) (hopens : g.Opens (calls.map .auth))
    (hlogin : LoginUseCase.ensureLoggedIn cfg.loginIdle env.login r.credentials
      m.loginCache = (token, cache, calls)) (htoken : ¬ token < 0) :
    g.granted r.credentials.identity token := by
  cases login_cases hlogin with
  | cached he => exact hi.sessions _ _ (LoginUseCase.lookup_swept.mp he).1
  | refused hnone hneg => exact absurd hneg htoken
  | opened hnone hpos =>
    exact hopens _ _ (List.mem_map_of_mem (List.mem_append_right _ List.mem_cons_self)) hpos

theorem Grounded.sessions_after (hi : Grounded g m) (hopens : g.Opens (calls.map .auth))
    (hlogin : LoginUseCase.ensureLoggedIn cfg.loginIdle env.login r.credentials
      m.loginCache = (token, cache, calls)) :
    ∀ id e, cache.lookup id = some e → g.granted id e.token := by
  intro id e he
  cases login_cases hlogin with
  | @cached e' hold =>
    rw [Table.lookup_insert_eq] at he
    split at he
    · next hid =>
      obtain rfl := Option.some.inj he
      rw [hid]
      exact hi.sessions _ e' (LoginUseCase.lookup_swept.mp hold).1
    · exact hi.sessions id e (LoginUseCase.lookup_swept.mp he).1
  | refused hnone hneg => exact hi.sessions id e (LoginUseCase.lookup_swept.mp he).1
  | opened hnone hpos =>
    rw [Table.lookup_insert_eq] at he
    split at he
    · next hid =>
      obtain rfl := Option.some.inj he
      rw [hid]
      exact hopens _ _ (List.mem_map_of_mem (List.mem_append_right _ List.mem_cons_self)) hpos
    · exact hi.sessions id e (LoginUseCase.lookup_swept.mp he).1

end Login

/-! ## The slots -/

/-- A slot keeps the grounds, and every call it makes has some. -/
structure Justified (g : Grounds) (m : Machine) : Prop where
  grounded : Grounded g m
  allowed : ∀ c ∈ m.calls, g.Allow c

theorem Justified.call {c : Call} (h : Justified g m) (hc : g.Allow c) : Justified g (m.call c) where
  grounded := h.grounded.frame (fun _ he => he) (fun _ hk => hk) rfl
  allowed c' hc' := by
    rcases List.mem_append.mp hc' with hc' | hc'
    · exact h.allowed c' hc'
    · rw [List.mem_singleton.mp hc']
      exact hc

theorem Justified.append {cs : List Call} (h : Justified g m) (hg : Grounded g m')
    (hcalls : m'.calls = m.calls ++ cs) (hc : ∀ c ∈ cs, g.Allow c) : Justified g m' where
  grounded := hg
  allowed c hmem := by
    rw [hcalls] at hmem
    exact (List.mem_append.mp hmem).elim (h.allowed c) (hc c)

/-- A job is put in for a key that was posted. -/
theorem Grounded.insert {key : PlaybackKey} {job : Job} (hi : Grounded g m)
    (hkey : ∃ r, g.posted r ∧ r.key = key) (hq : ∀ e ∈ m'.queue, e ∈ m.queue)
    (hj : m'.activeJobs = m.activeJobs.insert key job) (hc : m'.loginCache = m.loginCache) :
    Grounded g m' where
  requests r hr := hi.requests r (hq _ hr)
  clips id hex startSec endSec he := hi.clips id hex startSec endSec (hq _ he)
  jobs k hk := by
    rw [hj] at hk
    rcases (AList.mem_insert _).mp hk with rfl | hk
    · exact hkey
    · exact hi.jobs k hk
  sessions id e he := by
    rw [hc] at he
    exact hi.sessions id e he

theorem Justified.launchPackager {key : PlaybackKey} {job : Job} (h : Justified g m)
    (hkey : ∃ r, g.posted r ∧ r.key = key) : Justified g (m.launchPackager env key job) := by
  refine h.append (h.grounded.insert hkey (fun _ he => he) rfl rfl) rfl ?_
  obtain ⟨r, hr, rfl⟩ := hkey
  simp only [List.forall_mem_cons, List.not_mem_nil, false_implies, implies_true, and_true]
  exact ⟨⟨r, hr, rfl⟩, r, hr, rfl, rfl, rfl⟩

theorem Justified.afterLogin {r : PlaybackRequest} {token : SessionToken}
    {cache : LoginUseCase.Cache} {calls : List AuthCall} (h : Justified g m) (hr : g.posted r)
    (hopens : g.Opens (calls.map .auth))
    (hlogin : LoginUseCase.ensureLoggedIn cfg.loginIdle env.login r.credentials
      m.loginCache = (token, cache, calls)) : Justified g (m.afterLogin cache calls) := by
  refine h.append ⟨h.grounded.requests, h.grounded.clips, h.grounded.jobs,
    h.grounded.sessions_after hopens hlogin⟩ rfl fun c hc => ?_
  obtain ⟨a, ha, rfl⟩ := List.mem_map.mp hc
  exact h.grounded.login_allowed hr hlogin a ha

theorem Justified.requested {r : PlaybackRequest} (h : Justified g m) (hr : g.posted r)
    (hs : Requested cfg env r m m') (hopens : g.Opens m'.calls) : Justified g m' := by
  cases hs with
  | ready hdash => exact h.call ⟨r, hr, rfl⟩
  | active hdash hjob => exact h
  | refused hdash hjob hlogin htoken =>
    refine (h.afterLogin hr (hopens.mono fun c hc => ?_) hlogin).call ⟨r, hr, rfl⟩
    exact List.mem_append_left _ (List.mem_append_right _ hc)
  | shortcut hdash hjob hlogin htoken hmp4 =>
    have hlogged := h.afterLogin hr (hopens.mono fun c hc => List.mem_append_left _
      (List.mem_append_left _ (List.mem_append_left _ (List.mem_append_right _ hc)))) hlogin
    have hemplaced := hlogged.call (c := .emplaceJob r.key true) ⟨r, hr, rfl⟩
    have hpending := hemplaced.call (c := .emit (.statusChanged r.key.hex .pending "")) ⟨r, hr, rfl⟩
    exact hpending.launchPackager ⟨r, hr, rfl⟩
  | @download token cache calls hdash hjob hlogin htoken hmp4 =>
    have hcalls : g.Opens (calls.map .auth) := hopens.mono fun c hc =>
      List.mem_append_left _ (List.mem_append_right _ hc)
    have hlogged := h.afterLogin hr hcalls hlogin
    refine hlogged.append (hlogged.grounded.insert ⟨r, hr, rfl⟩ (fun _ he => he) rfl rfl)
      rfl ?_
    simp only [List.forall_mem_cons, List.not_mem_nil, false_implies, implies_true, and_true]
    refine ⟨⟨r, hr, rfl⟩, ⟨r, hr, rfl⟩, r, hr, rfl, rfl, ?_⟩
    exact h.grounded.token_granted hcalls hlogin htoken

theorem Justified.dispatched {e : Event} (h : Justified g m)
    (hr : ∀ r, e = .playbackRequested r → g.posted r)
    (hx : ∀ id hex startSec endSec, e = .exportRequested id hex startSec endSec →
      g.asked (clipExport id hex startSec endSec))
    (hs : Dispatched cfg env m m' e) (hopens : g.Opens m'.calls) : Justified g m' := by
  have hjob : ∀ {key : PlaybackKey} {job : Job}, m.activeJobs.lookup key = some job →
      ∃ r, g.posted r ∧ r.key = key := fun hj =>
    h.grounded.jobs _ (Table.mem_iff_lookup.mpr ⟨_, hj⟩)
  have herase : ∀ (key : PlaybackKey) (k : PlaybackKey), k ∈ m.activeJobs.erase key →
      k ∈ m.activeJobs := fun key k hk => (AList.mem_erase.mp hk).2
  cases hs with
  | playbackRequested hs => exact h.requested (hr _ rfl) hs hopens
  | keyAccessed hs =>
    rw [hs]
    exact ⟨h.grounded.frame (fun _ he => he) (fun _ hk => hk) rfl, h.allowed⟩
  | @exportRequested id hex startSec endSec hs =>
    cases hs with
    | notReady hdash => exact h.call trivial
    | started hdash =>
      refine h.append (h.grounded.frame (fun _ he => he) (fun _ hk => hk) rfl) rfl ?_
      exact List.forall_mem_singleton.mpr (hx id hex startSec endSec rfl)
  | @downloadFinished w key success err hs =>
    cases hs with
    | ignored hno => exact h
    | failed hj hok =>
      have herased : Justified g { m with activeJobs := m.activeJobs.erase key } :=
        ⟨h.grounded.frame (fun _ he => he) (herase key) rfl, h.allowed⟩
      obtain ⟨r, hposted, rfl⟩ := hjob hj
      exact herased.call ⟨r, hposted, rfl⟩
    | packaging hj hok => exact h.launchPackager (hjob hj)
  | @packageFinished w key success err hs =>
    cases hs with
    | ignored hno => exact h
    | failed hj hok =>
      have herased : Justified g { m with activeJobs := m.activeJobs.erase key } :=
        ⟨h.grounded.frame (fun _ he => he) (herase key) rfl, h.allowed⟩
      obtain ⟨r, hposted, rfl⟩ := hjob hj
      exact herased.call ⟨r, hposted, rfl⟩
    | ready hj hok =>
      have hevicted : Justified g ((m.beforeEvict key).evict cfg env) := by
        refine h.append (h.grounded.frame (fun _ he => he) (herase key) rfl)
          (evict_calls cfg env (m.beforeEvict key)) fun c hc => ?_
        obtain ⟨hex, hmem, rfl⟩ := List.mem_map.mp hc
        exact matchesHex16_of_attempts (mem_evictToCapacity_snd hex |>.mp hmem).1
      obtain ⟨r, hposted, rfl⟩ := hjob hj
      exact hevicted.call ⟨r, hposted, rfl⟩
  | @exportDone id ok outputPath err hs =>
    cases hs with
    | ignored hno => exact h
    | @finished e hexp =>
      have hclosed : Justified g { m with
          exportingRefcount := releaseRefcount e.key.hex m.exportingRefcount
          exports := m.exports.erase id } :=
        ⟨h.grounded.frame (fun _ he => he) (fun _ hk => hk) rfl, h.allowed⟩
      exact hclosed.call trivial

/-- A step whose logins, posts and clips are part of the grounds. -/
theorem Grounded.step {a : Action} (hi : Grounded g m) (h : Machine.step cfg a m = some m')
    (hr : a ≠ .restart) (hpost : ∀ r, a = .post r → g.posted r)
    (hask : ∀ id hex startSec endSec, a = .requestExport id hex startSec endSec →
      g.asked (clipExport id hex startSec endSec))
    (hopens : ∀ env, a = .handle env → g.Opens m'.calls) : Justified g m' := by
  have hquiet : ∀ {e : Event}, m'.queue = m.queue ++ [e] → m'.activeJobs = m.activeJobs →
      m'.loginCache = m.loginCache → m'.calls = [] →
      (∀ r, e = .playbackRequested r → g.posted r) →
      (∀ id hex startSec endSec, e = .exportRequested id hex startSec endSec →
        g.asked (clipExport id hex startSec endSec)) → Justified g m' := by
    intro e hq hj hc hcalls hposted hasked
    refine ⟨⟨fun r hmem => ?_, fun id hex startSec endSec hmem => ?_, ?_, ?_⟩, ?_⟩
    · rw [hq] at hmem
      rcases List.mem_append.mp hmem with hmem | hmem
      · exact hi.requests r hmem
      · exact hposted r (List.mem_singleton.mp hmem).symm
    · rw [hq] at hmem
      rcases List.mem_append.mp hmem with hmem | hmem
      · exact hi.clips id hex startSec endSec hmem
      · exact hasked id hex startSec endSec (List.mem_singleton.mp hmem).symm
    · rw [hj]
      exact hi.jobs
    · rw [hc]
      exact hi.sessions
    · rw [hcalls]
      exact List.forall_mem_nil _
  have hsame : m'.queue = m.queue → m'.activeJobs = m.activeJobs → m'.loginCache = m.loginCache →
      m'.calls = [] → Justified g m' := by
    intro hq hj hc hcalls
    refine ⟨hi.frame (fun e he => hq ▸ he) (fun k hk => hj ▸ hk) hc, ?_⟩
    rw [hcalls]
    exact List.forall_mem_nil _
  cases stepped h with
  | @handle env e q m' hq hclock hs =>
    have hpopped : Justified g (m.popped env q) :=
      ⟨hi.frame (fun e he => hq ▸ List.mem_cons_of_mem _ he) (fun _ hk => hk) rfl,
        List.forall_mem_nil _⟩
    refine hpopped.dispatched (fun r he => ?_) (fun id hex startSec endSec he => ?_) hs
      (hopens env rfl)
    · exact hi.requests r (hq ▸ he ▸ List.mem_cons_self)
    · exact hi.clips id hex startSec endSec (hq ▸ he ▸ List.mem_cons_self)
  | post hhex =>
    exact hquiet rfl rfl rfl rfl
      (fun r he => hpost r (congrArg Action.post (Event.playbackRequested.inj he)))
      fun _ _ _ _ he => nomatch he
  | access => exact hquiet rfl rfl rfl rfl (fun _ he => nomatch he) fun _ _ _ _ he => nomatch he
  | requestExport =>
    exact hquiet rfl rfl rfl rfl (fun _ he => nomatch he)
      fun _ _ _ _ he => hask _ _ _ _ (by simpa using he)
  | downloadExit | packageExit | exportExit =>
    exact hquiet rfl rfl rfl rfl (fun _ he => nomatch he) fun _ _ _ _ he => nomatch he
  | dropExport | downloadWrite | packageWrite | exportWrite => exact hsame rfl rfl rfl rfl
  | restart => exact absurd rfl hr

end Machine

namespace Daemon

variable {cfg : DaemonConfig} {d d' : Daemon} {tr : List (Transition Daemon Action)}
  {t : Transition Daemon Action}

/-- The calls that a step has made; only the processor makes any. -/
def made (t : Transition Daemon Action) : List Call :=
  match t.action with
  | .work _ => t.post.machine.calls
  | .playbackPost _ _ | .dashGet _ _ | .downloadGet _ _ _ | .deliver => []

/-- What a run gives as grounds. -/
def grounds (cfg : DaemonConfig) (tr : List (Transition Daemon Action)) : Grounds where
  posted r := ∃ t ∈ tr, ∃ apiKey body, t.action = .playbackPost apiKey body ∧
    (Listener.handlePlaybackPost cfg.http apiKey body).2 = some r
  granted id token := 0 ≤ token ∧ ∃ t ∈ tr, ∃ c, .auth (.login c token) ∈ made t ∧ c.identity = id
  asked w := ∃ t ∈ tr, ∃ hash start stop request filename, t.action = .downloadGet hash start stop ∧
    Listener.checkDownload hash start stop = .ok (request, filename) ∧
    w = Machine.clipExport w.requestId request.hash request.startSec request.endSec

theorem extends_append (cfg : DaemonConfig) (newer older : List (Transition Daemon Action)) :
    (grounds cfg (newer ++ older)).Extends (grounds cfg older) where
  posted r h := by
    obtain ⟨u, hu, h⟩ := h
    exact ⟨u, List.mem_append_right _ hu, h⟩
  granted id token h := by
    obtain ⟨hpos, u, hu, h⟩ := h
    exact ⟨hpos, u, List.mem_append_right _ hu, h⟩
  asked w h := by
    obtain ⟨u, hu, h⟩ := h
    exact ⟨u, List.mem_append_right _ hu, h⟩

theorem extends_cons (cfg : DaemonConfig) (t : Transition Daemon Action)
    (tr : List (Transition Daemon Action)) : (grounds cfg (t :: tr)).Extends (grounds cfg tr) :=
  extends_append cfg [t] tr

/-- One step, of a run whose steps before it have given grounds for all that is there. -/
theorem justified_step (hi : Machine.Grounded (grounds cfg tr) t.pre.machine)
    (hs : step cfg t.action t.pre = some t.post) :
    Machine.Grounded (grounds cfg (t :: tr)) t.post.machine ∧
      ∀ c ∈ made t, (grounds cfg (t :: tr)).Allow c := by
  have hi' : Machine.Grounded (grounds cfg (t :: tr)) t.pre.machine :=
    hi.mono (extends_cons cfg t tr)
  obtain ⟨pre, a, post⟩ := t
  have hs : step cfg a pre = some post := hs
  cases stepped hs with
  | postRejected | downloadRejected | heard | unmatched => exact ⟨hi', List.forall_mem_nil _⟩
  | @posted apiKey body request machine hpost hm =>
    refine ⟨(hi'.step hm nofun (fun r he => ?_) nofun nofun).grounded, List.forall_mem_nil _⟩
    obtain rfl := Machine.Action.post.inj he
    exact ⟨_, List.mem_cons_self, apiKey, body, rfl, hpost⟩
  | dashGet hm =>
    exact ⟨(hi'.step hm nofun nofun nofun nofun).grounded, List.forall_mem_nil _⟩
  | @accepted hash filename start stop request machine hcheck hm =>
    refine ⟨(hi'.step hm nofun nofun (fun id hex startSec endSec he => ?_) nofun).grounded,
      List.forall_mem_nil _⟩
    obtain ⟨rfl, rfl, rfl, rfl⟩ := Machine.Action.requestExport.inj he
    exact ⟨_, List.mem_cons_self, hash, start, stop, request, filename, rfl, hcheck, rfl⟩
  | answered hq hp hm =>
    refine ⟨?_, List.forall_mem_nil _⟩
    rcases step_of_dropExport hm with rfl | ⟨p, hm⟩
    · exact hi'
    · exact (hi'.step hm nofun nofun nofun nofun).grounded
  | @worked b machine hb hm =>
    have hrestart : b ≠ .restart := by
      rintro rfl
      cases hb
    have hjust := hi'.step hm hrestart (fun r he => by rw [he] at hb; cases hb)
      (fun id hex startSec endSec he => by rw [he] at hb; cases hb) fun env he c token hmem hpos =>
        ⟨hpos, _, List.mem_cons_self, c, hmem, rfl⟩
    exact ⟨hjust.grounded, hjust.allowed⟩

theorem grounded {disk : Disk} (h : (system cfg).Run (start disk) tr d) :
    Machine.Grounded (grounds cfg tr) d.machine := by
  induction h with
  | nil => exact .start disk
  | @next tr s s' a hr hs ih => exact (justified_step (t := ⟨s, a, s'⟩) ih hs).1

/-- **On whose behalf.** In every run, whatever the processor calls for has its grounds in the
requests that passed the checks of the listener before: the credentials of a login, the key and
the recording of a download, the key of a package, the clip of an export; and the session of a
download is one that the same camera has opened. -/
theorem calls_have_grounds {disk : Disk} {newer older : List (Transition Daemon Action)}
    (h : (system cfg).Run (start disk) (newer ++ t :: older) d) :
    ∀ c ∈ made t, (grounds cfg (t :: older)).Allow c :=
  (justified_step (grounded h.split.1) h.split.2).2

/-- A POST, and the slot that logs in and starts its download. -/
theorem calls_have_grounds_download :
    ∃ h : ((system Sample.config).replay (start {})
        [Sample.post, .work (.handle Machine.Sample.env)]).isSome = true,
      (((system Sample.config).replay (start {})
        [Sample.post, .work (.handle Machine.Sample.env)]).get h).1.map
          (fun t => (made t).length) = [4, 0] ∧
      ∀ newer t older, (((system Sample.config).replay (start {})
        [Sample.post, .work (.handle Machine.Sample.env)]).get h).1 = newer ++ t :: older →
          ∀ c ∈ made t, (grounds Sample.config (t :: older)).Allow c := by
  have hsome : ((system Sample.config).replay (start {})
      [Sample.post, .work (.handle Machine.Sample.env)]).isSome = true := by decide
  refine ⟨hsome, by decide +revert, fun newer t older he => ?_⟩
  have hrun := System.run_get hsome
  rw [he] at hrun
  exact calls_have_grounds hrun

end Daemon

end VisionPlayback
