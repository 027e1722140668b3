import VisionPlayback.Http.Authority
import VisionPlayback.Lib.Budget
import VisionPlayback.Processor.Ownership

/-!
# No more than was asked for

An accepted POST pays for one login, one download and one packaging run, each of them
at most; what is not spent on it stays queued or belongs to the job it has started.
-/

namespace VisionPlayback

open Lib StreamCache

/-- A login with these credentials. -/
def Call.logsIn (credentials : Credentials) : Call → Bool
  | .auth (.login c _) => c = credentials
  | _ => false

def Call.downloads (key : PlaybackKey) : Call → Bool
  | .startDownload w => w.request.key = key
  | _ => false

def Call.packages (key : PlaybackKey) : Call → Bool
  | .package w => w.key = key
  | _ => false

def Event.asks (p : PlaybackRequest → Bool) : Event → Bool
  | .playbackRequested r => p r
  | _ => false

/-- The credit of a job: its download is to be followed by a packaging run. -/
def Job.fetching : Option Job → Nat
  | none => 0
  | some job => if job.state = .downloading then 1 else 0

namespace Machine

variable {cfg : Config} {env : Env} {m m' : Machine}

/-- The requests in the queue that meet a condition. -/
def asking (p : PlaybackRequest → Bool) (m : Machine) : Nat := m.queue.countP (·.asks p)

def fetching (key : PlaybackKey) (m : Machine) : Nat := Job.fetching (m.activeJobs.lookup key)

/-! ## What one slot spends -/

theorem countP_auth {f : Call → Bool} (h : ∀ a, f (.auth a) = false) (calls : List AuthCall) :
    (calls.map Call.auth).countP f = 0 := by
  rw [List.countP_map, List.countP_eq_zero]
  intro a _
  simp [h a]

theorem countP_removed {f : Call → Bool} (h : ∀ hex, f (.removed hex) = false) (l : List String) :
    (l.map Call.removed).countP f = 0 := by
  rw [List.countP_map, List.countP_eq_zero]
  intro hex _
  simp [h hex]

/-- A request logs in once at most, and with its own credentials. -/
theorem countP_logsIn {r : PlaybackRequest} {token : SessionToken} {cache : LoginUseCase.Cache}
    {calls : List AuthCall} (credentials : Credentials)
    (hlogin : LoginUseCase.ensureLoggedIn cfg.loginIdle env.login r.credentials m.loginCache =
      (token, cache, calls)) :
    (calls.map Call.auth).countP (·.logsIn credentials) ≤
      if r.credentials = credentials then 1 else 0 := by
  have hswept : ((LoginUseCase.sweepIdle cfg.loginIdle env.login.sweepNow m.loginCache).2.map
      Call.auth).countP (·.logsIn credentials) = 0 := by
    rw [List.countP_map, List.countP_eq_zero]
    intro c hc
    obtain ⟨id, e, rfl, -⟩ := logout_of_mem_swept hc
    exact Bool.false_ne_true
  have hlast : ∀ token, (([.login r.credentials token] : List AuthCall).map Call.auth).countP
      (·.logsIn credentials) ≤ if r.credentials = credentials then 1 else 0 := by
    intro token
    by_cases hc : r.credentials = credentials
    · simp [Call.logsIn, hc]
    · simp [Call.logsIn, hc]
  cases login_cases hlogin with
  | cached he =>
    rw [hswept]
    exact Nat.zero_le _
  | refused | opened =>
    rw [List.map_append, List.countP_append, hswept, Nat.zero_add]
    exact hlast token

/-- What a slot spends on a key and on a camera, against the request it handles. -/
structure Covered (key : PlaybackKey) (credentials : Credentials) (e : Event) (m m' : Machine) :
    Prop where
  login : m'.calls.countP (·.logsIn credentials) ≤
    if e.asks (fun r => r.credentials = credentials) then 1 else 0
  download : m'.calls.countP (·.downloads key) ≤ if e.asks (fun r => r.key = key) then 1 else 0
  package : fetching key m' + m'.calls.countP (·.packages key) ≤
    fetching key m + if e.asks (fun r => r.key = key) then 1 else 0

variable {key : PlaybackKey} {credentials : Credentials}

/-- A slot that makes no call of the three kinds and starts no download. -/
theorem Covered.nothing {e : Event} (hf : fetching key m' ≤ fetching key m)
    (hl : m'.calls.countP (·.logsIn credentials) = 0)
    (hd : m'.calls.countP (·.downloads key) = 0)
    (hp : m'.calls.countP (·.packages key) = 0) : Covered key credentials e m m' where
  login := by rw [hl]; exact Nat.zero_le _
  download := by rw [hd]; exact Nat.zero_le _
  package := by omega

theorem fetching_insert (key : PlaybackKey) (job : Job) (t : Table PlaybackKey Job)
    (k : PlaybackKey) : Job.fetching ((t.insert k job).lookup key) =
      if key = k then Job.fetching (some job) else Job.fetching (t.lookup key) := by
  rw [Table.lookup_insert_eq]
  split <;> rfl

theorem fetching_erase_le (key : PlaybackKey) (t : Table PlaybackKey Job) (k : PlaybackKey) :
    Job.fetching ((t.erase k).lookup key) ≤ Job.fetching (t.lookup key) := by
  rw [Table.lookup_erase_eq]
  split
  · exact Nat.zero_le _
  · exact Nat.le_refl _

/-- The slot of a request that comes to the login. -/
theorem Covered.of_login {r : PlaybackRequest} {token : SessionToken} {cache : LoginUseCase.Cache}
    {calls : List AuthCall} (rest : List Call)
    (hlogin : LoginUseCase.ensureLoggedIn cfg.loginIdle env.login r.credentials m.loginCache =
      (token, cache, calls)) (hm : m'.calls = calls.map Call.auth ++ rest)
    (hl : rest.countP (·.logsIn credentials) = 0)
    (hd : rest.countP (·.downloads key) ≤ if r.key = key then 1 else 0)
    (hp : fetching key m' + rest.countP (·.packages key) ≤
      fetching key m + if r.key = key then 1 else 0) :
    Covered key credentials (.playbackRequested r) m m' := by
  constructor
  · rw [hm, List.countP_append, hl, Nat.add_zero]
    simpa [Event.asks] using countP_logsIn credentials hlogin
  · rw [hm, List.countP_append, countP_auth (fun _ => rfl), Nat.zero_add]
    simpa [Event.asks] using hd
  · rw [hm, List.countP_append, countP_auth (fun _ => rfl), Nat.zero_add]
    simpa [Event.asks] using hp

theorem Requested.covered {r : PlaybackRequest} (hcalls : m.calls = [])
    (h : Requested cfg env r m m') : Covered key credentials (.playbackRequested r) m m' := by
  cases h with
  | ready hdash =>
    refine .nothing (Nat.le_refl _) ?_ ?_ ?_ <;>
      simp [statusChanged, call, hcalls, Call.logsIn, Call.downloads, Call.packages]
  | active hdash hjob => refine .nothing (Nat.le_refl _) ?_ ?_ ?_ <;> simp [hcalls]
  | @refused token cache calls hdash hjob hlogin htoken =>
    refine .of_login [.emit (.statusChanged r.key.hex .failed "")] hlogin ?_ rfl ?_ ?_
    · simp [statusChanged, call, afterLogin, hcalls]
    · exact Nat.zero_le _
    · exact Nat.le_add_right _ _
  | @shortcut token cache calls hdash hjob hlogin htoken hmp4 =>
    let w : Packager := ⟨m.nextWorker, r.key, mp4Path r.key, dashDir r.key⟩
    refine .of_login [.emplaceJob r.key true, .emit (.statusChanged r.key.hex .pending ""),
      .emit (.statusChanged r.key.hex .packaging ""), .package w] hlogin ?_ rfl ?_ ?_
    · simp [launchPackager, statusChanged, call, afterLogin, hcalls, w]
    · exact Nat.zero_le _
    · show Job.fetching ((m.activeJobs.insert r.key _).lookup key) + _ ≤ Job.fetching _ + _
      rw [fetching_insert]
      by_cases hk : r.key = key
      · simp [Call.packages, w, hk, Job.fetching]
      · simp [Call.packages, w, hk, Ne.symm hk]
  | @download token cache calls hdash hjob hlogin htoken hmp4 =>
    let w : Downloader := ⟨m.nextWorker, { r with token := token }, mp4Path r.key⟩
    refine .of_login [.emplaceJob r.key true,
      .emit (.statusChanged r.key.hex .downloading ""), .startDownload w] hlogin ?_ rfl ?_ ?_
    · simp [launchDownloader, afterLogin, hcalls, w]
    · by_cases hk : r.key = key <;> simp [Call.downloads, w, hk]
    · show Job.fetching ((m.activeJobs.insert r.key (downloadJob m.nextWorker { r with token })).lookup
        key) + _ ≤ Job.fetching _ + _
      rw [fetching_insert]
      by_cases hk : r.key = key
      · simp [Call.packages, hk, Job.fetching, downloadJob]
      · simp [Call.packages, hk, Ne.symm hk]

theorem Dispatched.covered {e : Event} (hcalls : m.calls = []) (h : Dispatched cfg env m m' e)
    (hstate : ∀ w k ok err job, e = .downloadFinished w k ok err →
      m.activeJobs.lookup k = some job → job.state = .downloading) :
    Covered key credentials e m m' := by
  cases h with
  | playbackRequested hs => exact hs.covered hcalls
  | keyAccessed hs =>
    rw [hs]
    refine .nothing (Nat.le_refl _) ?_ ?_ ?_ <;> simp [onKeyAccessed, hcalls]
  | exportRequested hs =>
    cases hs with
    | notReady hdash =>
      refine .nothing (Nat.le_refl _) ?_ ?_ ?_ <;>
        simp [call, hcalls, Call.logsIn, Call.downloads, Call.packages]
    | started hdash =>
      refine .nothing (Nat.le_refl _) ?_ ?_ ?_ <;>
        simp [launchExporter, hcalls, Call.logsIn, Call.downloads, Call.packages]
  | @downloadFinished w k success err hs =>
    cases hs with
    | ignored hno => refine .nothing (Nat.le_refl _) ?_ ?_ ?_ <;> simp [hcalls]
    | failed hj hok =>
      refine .nothing (fetching_erase_le key m.activeJobs k) ?_ ?_ ?_ <;>
        simp [statusChanged, call, hcalls, Call.logsIn, Call.downloads, Call.packages]
    | @packaging job hj hok =>
      have hdown := hstate w k success err job rfl hj
      refine ⟨?_, ?_, ?_⟩
      · simp [launchPackager, hcalls, Call.logsIn]
      · simp [launchPackager, hcalls, Call.downloads]
      -- the run is paid for by the download that has ended
      · show Job.fetching ((m.activeJobs.insert k _).lookup key) + _ ≤ Job.fetching _ + _
        rw [fetching_insert]
        by_cases hk : k = key
        · subst hk
          simp [launchPackager, hcalls, Call.packages, Job.fetching, hj, hdown]
        · simp [launchPackager, hcalls, Call.packages, hk, Ne.symm hk]
  | @packageFinished w k success err hs =>
    cases hs with
    | ignored hno => refine .nothing (Nat.le_refl _) ?_ ?_ ?_ <;> simp [hcalls]
    | failed hj hok =>
      refine .nothing (fetching_erase_le key m.activeJobs k) ?_ ?_ ?_ <;>
        simp [statusChanged, call, hcalls, Call.logsIn, Call.downloads, Call.packages]
    | ready hj hok =>
      have hnone : (m.beforeEvict k).calls = [] := hcalls
      refine .nothing (fetching_erase_le key m.activeJobs k) ?_ ?_ ?_
      all_goals
        rw [statusChanged, call, evict_calls, hnone, List.nil_append, List.countP_append,
          countP_removed (fun _ => rfl)]
        rfl
  | exportDone hs =>
    cases hs with
    | ignored hno => refine .nothing (Nat.le_refl _) ?_ ?_ ?_ <;> simp [hcalls]
    | finished hexp =>
      refine .nothing (Nat.le_refl _) ?_ ?_ ?_ <;>
        simp [call, hcalls, Call.logsIn, Call.downloads, Call.packages]

/-! ## What a step takes in -/

/-- The request that a step queues. -/
def Action.asks (p : PlaybackRequest → Bool) : Action → Nat
  | .post r => if p r then 1 else 0
  | .access _ | .requestExport _ _ _ _ | .dropExport _ | .handle _ | .downloadWrite _ _
  | .downloadExit _ _ _ | .packageWrite _ _ | .packageExit _ _ _ | .exportWrite _ _
  | .exportExit _ _ _ | .restart => 0

theorem asking_enqueue {p : PlaybackRequest → Bool} {e : Event} {q : List Event} :
    (q ++ [e]).countP (·.asks p) = q.countP (·.asks p) + if e.asks p then 1 else 0 := by
  rw [List.countP_append, List.countP_singleton]

/-- Between two slots the queue only grows, and no job changes. -/
theorem taken_in {a : Action} (p : PlaybackRequest → Bool) (key : PlaybackKey)
    (h : Machine.step cfg a m = some m') (hr : a ≠ .restart) (hh : ∀ env, a ≠ .handle env) :
    asking p m' = asking p m + a.asks p ∧ fetching key m' = fetching key m ∧ m'.calls = [] := by
  cases stepped h with
  | handle => exact absurd rfl (hh _)
  | restart => exact absurd rfl hr
  | post | access | requestExport | downloadExit | packageExit | exportExit =>
    exact ⟨asking_enqueue, rfl, rfl⟩
  | dropExport | downloadWrite | packageWrite | exportWrite => exact ⟨rfl, rfl, rfl⟩

/-- A slot takes its event off the queue and is covered by it. -/
theorem covered_slot (key : PlaybackKey) (credentials : Credentials) (ho : Ownership m)
    (h : Machine.step cfg (.handle env) m = some m') :
    ∃ e, Covered key credentials e m m' ∧ ∀ p : PlaybackRequest → Bool,
      asking p m' + (if e.asks p then 1 else 0) = asking p m := by
  cases stepped h with
  | @handle _ e q m' hq hclock hs =>
    have hcovered : Covered key credentials e (m.popped env q) m' := by
      refine hs.covered rfl fun w k ok err job he hj => ?_
      have hmem : .downloadFinished w k ok err ∈ m.queue := by
        rw [hq, he]
        exact List.mem_cons_self
      have ht : Token.downloaded w ok ∈ m.tokens k := mem_tokens_of_event hmem (if_pos rfl)
      obtain ⟨-, -, job', hj', -, howns⟩ := ho.of_mem ht
      obtain rfl := Option.some.inj (hj'.symm.trans hj)
      exact howns.1
    refine ⟨e, ⟨hcovered.login, hcovered.download, hcovered.package⟩, fun p => ?_⟩
    rw [asking, asking, hs.queue_eq, hq, List.countP_cons]
    rfl

end Machine

namespace Daemon

variable {cfg : DaemonConfig} {d d' : Daemon} {tr : List (Transition Daemon Action)}
  {t : Transition Daemon Action}

/-- Whether a step is a POST that is accepted with such a request. -/
def accepts (cfg : DaemonConfig) (p : PlaybackRequest → Bool) (t : Transition Daemon Action) : Nat :=
  match t.action with
  | .playbackPost apiKey body =>
    if (Listener.handlePlaybackPost cfg.http apiKey body).2.any p then 1 else 0
  | .dashGet _ _ | .downloadGet _ _ _ | .deliver | .work _ => 0

/-- The three kinds of calls against the queue and the job of a key. -/
structure Paid (cfg : DaemonConfig) (key : PlaybackKey) (credentials : Credentials)
    (t : Transition Daemon Action) : Prop where
  login : System.Pays (fun d => d.machine.asking fun r => r.credentials = credentials)
    (fun t => (made t).countP (·.logsIn credentials))
    (accepts cfg fun r => r.credentials = credentials) t
  download : System.Pays (fun d => d.machine.asking fun r => r.key = key)
    (fun t => (made t).countP (·.downloads key)) (accepts cfg fun r => r.key = key) t
  package : System.Pays
    (fun d => (d.machine.asking fun r => r.key = key) + d.machine.fetching key)
    (fun t => (made t).countP (·.packages key)) (accepts cfg fun r => r.key = key) t

variable {key : PlaybackKey} {credentials : Credentials}

/-- A step that makes no call pays if it takes in what it queues. -/
theorem Paid.quiet (hmade : made t = [])
    (hask : ∀ p, t.post.machine.asking p ≤ t.pre.machine.asking p + accepts cfg p t)
    (hfetch : t.post.machine.fetching key = t.pre.machine.fetching key) :
    Paid cfg key credentials t := by
  constructor
  · show _ + (made t).countP _ ≤ _
    rw [hmade]
    exact hask _
  · show _ + (made t).countP _ ≤ _
    rw [hmade]
    exact hask _
  · show _ + _ + (made t).countP _ ≤ _ + _ + _
    rw [hmade, hfetch, List.countP_nil]
    have h := hask fun r => r.key = key
    omega

theorem paid_step (ho : Machine.Ownership t.pre.machine)
    (hs : step cfg t.action t.pre = some t.post) : Paid cfg key credentials t := by
  obtain ⟨pre, a, post⟩ := t
  have hs : step cfg a pre = some post := hs
  cases stepped hs with
  | postRejected | downloadRejected | heard | unmatched =>
    exact .quiet rfl (fun p => Nat.le_add_right _ _) rfl
  | @posted apiKey body request machine hpost hm =>
    refine .quiet rfl (fun p => ?_) (Machine.taken_in (fun _ => true) key hm nofun nofun).2.1
    have hasks := (Machine.taken_in p key hm nofun nofun).1
    simp only [accepts, hpost, Option.any_some]
    exact hasks.le
  | dashGet hm =>
    have htaken := fun p => Machine.taken_in p key hm nofun nofun
    exact .quiet rfl (fun p => (htaken p).1.le) (htaken fun _ => true).2.1
  | accepted hcheck hm =>
    have htaken := fun p => Machine.taken_in p key hm nofun nofun
    exact .quiet rfl (fun p => (htaken p).1.le) (htaken fun _ => true).2.1
  | answered hq hp hm =>
    rcases step_of_dropExport hm with rfl | ⟨path, hm⟩
    · exact .quiet rfl (fun p => Nat.le_add_right _ _) rfl
    · have htaken := fun p => Machine.taken_in p key hm nofun nofun
      exact .quiet rfl (fun p => (htaken p).1.le) (htaken fun _ => true).2.1
  | @worked b machine hb hm =>
    by_cases hslot : ∃ env, b = .handle env
    · obtain ⟨env, rfl⟩ := hslot
      have hslot : ∃ e, Machine.Covered key credentials e pre.machine machine ∧
          ∀ p : PlaybackRequest → Bool, machine.asking p + (if e.asks p then 1 else 0) =
            pre.machine.asking p := Machine.covered_slot key credentials ho hm
      obtain ⟨e, hcovered, hasks⟩ := hslot
      constructor
      · have hone := hasks fun r => r.credentials = credentials
        have hlogin := hcovered.login
        show Machine.asking _ machine + machine.calls.countP _ ≤ Machine.asking _ pre.machine + 0
        omega
      · have hone := hasks fun r => r.key = key
        have hdownload := hcovered.download
        show Machine.asking _ machine + machine.calls.countP _ ≤ Machine.asking _ pre.machine + 0
        omega
      · have hone := hasks fun r => r.key = key
        have hpackage := hcovered.package
        show Machine.asking _ machine + Machine.fetching key machine + machine.calls.countP _ ≤
          Machine.asking _ pre.machine + Machine.fetching key pre.machine + 0
        omega
    · have hrestart : b ≠ .restart := by
        rintro rfl
        cases hb
      have htaken := fun p => Machine.taken_in p key hm hrestart fun env he => hslot ⟨env, he⟩
      have hnone : ∀ p, b.asks p = 0 := by
        intro p
        cases b <;> first | rfl | cases hb
      refine .quiet (htaken fun _ => true).2.2 (fun p => ?_) (htaken fun _ => true).2.1
      have hasks := (htaken p).1
      rw [hnone p] at hasks
      exact hasks.le

/-- **No more than was asked for.** Over every run the logins with some credentials are no more
than the accepted POSTs that carry them, and the downloads and the packaging runs of a key no
more than its accepted POSTs, each by the requests that are still queued; and a download that is
under way still has its packaging run to come. -/
theorem no_more_than_posted {disk : Disk} (h : (system cfg).Run (start disk) tr d)
    (key : PlaybackKey) (credentials : Credentials) :
    (d.machine.asking fun r => r.credentials = credentials) +
        (tr.map fun t => (made t).countP (·.logsIn credentials)).sum ≤
      (tr.map (accepts cfg fun r => r.credentials = credentials)).sum ∧
    (d.machine.asking fun r => r.key = key) +
        (tr.map fun t => (made t).countP (·.downloads key)).sum ≤
      (tr.map (accepts cfg fun r => r.key = key)).sum ∧
    (d.machine.asking fun r => r.key = key) + d.machine.fetching key +
        (tr.map fun t => (made t).countP (·.packages key)).sum ≤
      (tr.map (accepts cfg fun r => r.key = key)).sum := by
  have hpaid : ∀ t ∈ tr, Paid cfg key credentials t := by
    intro t ht
    obtain ⟨hr, hs⟩ := h.transition ht
    exact paid_step (Machine.ownership (machine_reachable hr)) hs
  have hlogin := h.budget fun t ht => (hpaid t ht).login
  have hdownload := h.budget fun t ht => (hpaid t ht).download
  have hpackage := h.budget fun t ht => (hpaid t ht).package
  have hnone : ∀ p, Machine.asking p (start disk).machine = 0 := fun _ => rfl
  have hidle : Machine.fetching key (start disk).machine = 0 := rfl
  simp only [hnone, hidle, Nat.zero_add, Nat.add_zero] at hlogin hdownload hpackage
  exact ⟨hlogin, hdownload, hpackage⟩

/-- Two POSTs for one recording; the first has started its download. -/
theorem no_more_than_posted_twice :
    ∃ h : ((system Sample.config).replay (start {}) [Sample.post, Sample.post,
        .work (.handle Machine.Sample.env)]).isSome = true,
      (Machine.asking (fun r => r.key = ⟨"00000000000000aa"⟩) (((system Sample.config).replay
          (start {}) [Sample.post, Sample.post, .work (.handle Machine.Sample.env)]).get h).2.machine) +
        ((((system Sample.config).replay (start {}) [Sample.post, Sample.post,
          .work (.handle Machine.Sample.env)]).get h).1.map fun t =>
            (made t).countP (·.downloads ⟨"00000000000000aa"⟩)).sum ≤
        ((((system Sample.config).replay (start {}) [Sample.post, Sample.post,
          .work (.handle Machine.Sample.env)]).get h).1.map
            (accepts Sample.config fun r => r.key = ⟨"00000000000000aa"⟩)).sum :=
  ⟨by decide, (no_more_than_posted (System.run_get _) ⟨"00000000000000aa"⟩
    { ip := "", user := "", pass := "" }).2.1⟩

end Daemon

end VisionPlayback
