import VisionPlayback.Http.Daemon
import VisionPlayback.Processor.Ownership

/-!
# The listener's mirror of the job table

What the listener will hold for a key, once it has heard every status on its
way, against the job table of the processor.
-/

namespace VisionPlayback

open Lib Lib.Replica StreamCache

def Signal.status? : Signal → Option (String × StreamStatus)
  | .statusChanged keyHex status _ => some (keyHex, status)
  | .exportFinished _ _ _ _ => none

def statuses (q : List Signal) : List (String × StreamStatus) := q.filterMap (·.status?)

theorem statuses_append (q q' : List Signal) : statuses (q ++ q') = statuses q ++ statuses q' :=
  List.filterMap_append

namespace Machine

/-! ## What a slot tells the listener -/

def told (m : Machine) : List (String × StreamStatus) := statuses m.emits

variable {m m' : Machine}

theorem told_append (cs : List Call) (h : m'.calls = m.calls ++ cs) :
    m'.told = m.told ++ statuses (cs.filterMap (·.signal?)) := by
  simp only [told, emits, h, List.filterMap_append, statuses_append]

@[simp]
theorem told_statusChanged (key : PlaybackKey) (status : StreamStatus) (url : String) (m : Machine) :
    (m.statusChanged key status url).told = m.told ++ [(key.hex, status)] :=
  told_append [.emit (.statusChanged key.hex status url)] rfl

@[simp]
theorem told_emplaceJob (key : PlaybackKey) (inserted : Bool) (m : Machine) :
    (m.call (.emplaceJob key inserted)).told = m.told := by
  rw [told_append _ rfl]
  exact List.append_nil _

@[simp]
theorem told_afterLogin (cache : LoginUseCase.Cache) (calls : List AuthCall) (m : Machine) :
    (m.afterLogin cache calls).told = m.told := by
  have h : (calls.map Call.auth).filterMap (·.signal?) = [] := by
    simp [List.filterMap_map, Call.signal?]
  rw [told_append _ rfl, h]
  exact List.append_nil _

@[simp]
theorem told_launchPackager (env : Env) (key : PlaybackKey) (job : Job) (m : Machine) :
    (m.launchPackager env key job).told = m.told ++ [(key.hex, .packaging)] :=
  told_append [.emit (.statusChanged key.hex .packaging ""), .package _] rfl

@[simp]
theorem told_launchDownloader (r : PlaybackRequest) (m : Machine) :
    (m.launchDownloader r).told = m.told ++ [(r.key.hex, .downloading)] :=
  told_append [.emplaceJob r.key true, .emit (.statusChanged r.key.hex .downloading ""),
    .startDownload _] rfl

@[simp]
theorem told_evict (cfg : Config) (env : Env) (m : Machine) : (m.evict cfg env).told = m.told := by
  have h : ∀ l : List String, (l.map Call.removed).filterMap (·.signal?) = [] := by
    intro l
    simp [List.filterMap_map, Call.signal?]
  rw [told_append _ rfl, h]
  exact List.append_nil _

@[simp]
theorem told_launchExporter (w : ClipExport) (key : PlaybackKey) (m : Machine) :
    (m.launchExporter w key).told = m.told := by
  rw [told_append _ rfl]
  exact List.append_nil _

theorem told_nil (h : m.calls = []) : m.told = [] := by
  simp only [told, emits, h, List.filterMap_nil, statuses]

/-- Only a slot tells the listener anything. -/
theorem told_of_not_handle {cfg : Config} {a : Action} (h : Machine.step cfg a m = some m')
    (ha : ∀ env, a ≠ .handle env) : m'.told = [] := by
  cases stepped h with
  | @handle env => exact absurd rfl (ha env)
  | post | access | requestExport | dropExport | downloadWrite | downloadExit | packageWrite
  | packageExit | exportWrite | exportExit | restart => exact told_nil rfl

/-! ## The mirror -/

/-- What the listener may hold of a key, by the key's job. -/
inductive Shows : Option Job → Option StreamStatus → Prop
  | absent : Shows none none
  | ready : Shows none (some .ready)
  | failed : Shows none (some .failed)
  | downloading {job : Job} (h : job.state = .downloading) : Shows (some job) (some .downloading)
  | packaging {job : Job} (h : job.state = .packaging) : Shows (some job) (some .packaging)
  /-- A POST has found the manifest of the run that is under way. -/
  | early {job : Job} (h : job.state = .packaging) : Shows (some job) (some .ready)

structure Mirrors (V : String → Option StreamStatus) (m : Machine) : Prop where
  shows_ : ∀ k, Shows (m.activeJobs.lookup k) (V k.hex)
  /-- There is no manifest before the packaging run. -/
  unpackaged : ∀ k job, m.activeJobs.lookup k = some job → job.state = .downloading →
    dashExists k m.disk = false

variable {V : String → Option StreamStatus} {key : PlaybackKey}

theorem Mirrors.frame (hi : Mirrors V m) (hj : m'.activeJobs = m.activeJobs)
    (hd : ∀ k job, m.activeJobs.lookup k = some job → job.state = .downloading →
      dashExists k m'.disk = true → dashExists k m.disk = true) : Mirrors V m' where
  shows_ k := by
    rw [hj]
    exact hi.shows_ k
  unpackaged k job hk hs := by
    rw [hj] at hk
    have h := hi.unpackaged k job hk hs
    cases hdash : dashExists k m'.disk with
    | false => rfl
    | true => rw [hd k job hk hs hdash] at h; cases h

/-- One key gets a new job, or none, and the status that goes with it is sent. -/
theorem Mirrors.put {o : Option Job} {s : StreamStatus} (hi : Mirrors V m) (key : PlaybackKey)
    (hj : ∀ k, m'.activeJobs.lookup k = if k = key then o else m.activeJobs.lookup k)
    (hd : ∀ k, dashExists k m'.disk = true → dashExists k m.disk = true) (hs : Shows o (some s))
    (hkey : ∀ job, o = some job → job.state = .downloading → dashExists key m.disk = false) :
    Mirrors (Function.update V key.hex (some s)) m' where
  shows_ k := by
    rw [hj k]
    by_cases hk : k = key
    · rw [if_pos hk, hk, Function.update_self]
      exact hs
    · have hne : k.hex ≠ key.hex := fun h => hk (dashDir_inj h)
      rw [if_neg hk, Function.update_of_ne hne]
      exact hi.shows_ k
  unpackaged k job hk hstate := by
    have hold : dashExists k m.disk = false := by
      rw [hj k] at hk
      by_cases hkk : k = key
      · rw [if_pos hkk] at hk
        rw [hkk]
        exact hkey job hk hstate
      · rw [if_neg hkk] at hk
        exact hi.unpackaged k job hk hstate
    cases hdash : dashExists k m'.disk with
    | false => rfl
    | true => rw [hd k hdash] at hold; cases hold

theorem Mirrors.erase {s : StreamStatus} (hi : Mirrors V m)
    (hj : m'.activeJobs = m.activeJobs.erase key)
    (hd : ∀ k, dashExists k m'.disk = true → dashExists k m.disk = true) (hs : Shows none (some s)) :
    Mirrors (Function.update V key.hex (some s)) m' :=
  hi.put key (fun k => by rw [hj, Table.lookup_erase_eq]) hd hs nofun

theorem Mirrors.launchPackager {env : Env} {job : Job} (hi : Mirrors V m) :
    Mirrors (Function.update V key.hex (some .packaging)) (m.launchPackager env key job) := by
  refine hi.put key (fun k => Table.lookup_insert_eq _ _ _ _) (fun k h => ?_) (.packaging rfl) ?_
  · exact (dashExists_mkpath k _ _ m.disk) ▸ h
  · intro job' he hs
    obtain rfl := Option.some.inj he
    cases hs

theorem Mirrors.requested {cfg : Config} {env : Env} {r : PlaybackRequest} (hi : Mirrors V m)
    (ht : m.told = []) (h : Requested cfg env r m m') : Mirrors (hear m'.told V) m' := by
  cases h with
  | ready hdash =>
    rw [told_statusChanged, ht]
    refine hi.put r.key (o := m.activeJobs.lookup r.key) (fun k => ?_) (fun _ h => h) ?_ (fun job hj hs => ?_)
    · split
      · next hk => rw [hk]; rfl
      · rfl
    · have hshow := hi.shows_ r.key
      generalize V r.key.hex = v at hshow
      cases hj : m.activeJobs.lookup r.key with
      | none => exact .ready
      | some job =>
        rw [hj] at hshow
        cases hshow with
        | downloading hs => rw [hi.unpackaged r.key job hj hs] at hdash; cases hdash
        | packaging hs => exact .early hs
        | early hs => exact .early hs
    · exact hi.unpackaged r.key job hj hs
  | active hdash hjob =>
    rw [ht]
    exact hi
  | refused hdash hjob hlogin htoken =>
    rw [told_statusChanged, told_afterLogin, ht]
    refine hi.put r.key (o := none) (fun k => ?_) (fun _ h => h) .failed nofun
    split
    · next hk => rw [hk]; exact AList.lookup_eq_none.mpr hjob
    · rfl
  | @shortcut token cache calls hdash hjob hlogin htoken hmp4 =>
    rw [told_launchPackager, told_statusChanged, told_emplaceJob, told_afterLogin, ht]
    have hV : hear ([] ++ [(r.key.hex, .pending)] ++ [(r.key.hex, .packaging)]) V =
        Function.update V r.key.hex (some .packaging) := Function.update_idem _ _ _
    rw [hV]
    have hi' : Mirrors V ((((m.afterLogin cache calls).call (.emplaceJob r.key true)).statusChanged
        r.key .pending "")) := hi.frame rfl fun _ _ _ _ h => h
    exact hi'.launchPackager
  | download hdash hjob hlogin htoken hmp4 =>
    rw [told_launchDownloader, told_afterLogin, ht]
    exact hi.put r.key (fun k => Table.lookup_insert_eq _ _ _ _) (fun _ h => h)
      (.downloading rfl) fun _ _ _ => hdash

theorem Mirrors.dispatched {cfg : Config} {env : Env} {e : Event} (hi : Mirrors V m)
    (ht : m.told = []) (h : Dispatched cfg env m m' e) : Mirrors (hear m'.told V) m' := by
  cases h with
  | playbackRequested hs => exact hi.requested ht hs
  | @keyAccessed keyHex hs =>
    obtain rfl := hs
    have ht' : (m.onKeyAccessed env keyHex).told = [] := ht
    rw [ht']
    exact hi.frame rfl fun _ _ _ _ h => h
  | exportRequested hs =>
    cases hs with
    | notReady hdash =>
      rw [told_append _ rfl, ht]
      exact hi.frame rfl fun _ _ _ _ h => h
    | started hdash =>
      rw [told_launchExporter, ht]
      exact hi.frame rfl fun _ _ _ _ h => h
  | @downloadFinished w key success err hs =>
    cases hs with
    | ignored hjob =>
      rw [ht]
      exact hi
    | failed hjob hok =>
      have ht' : ({ m with activeJobs := m.activeJobs.erase key } : Machine).told = [] := ht
      rw [told_statusChanged, ht']
      exact hi.erase rfl (fun _ h => h) .failed
    | packaging hjob hok =>
      rw [told_launchPackager, ht]
      exact hi.launchPackager
  | @packageFinished w key success err hs =>
    cases hs with
    | ignored hjob =>
      rw [ht]
      exact hi
    | failed hjob hok =>
      have ht' : ({ m with activeJobs := m.activeJobs.erase key } : Machine).told = [] := ht
      rw [told_statusChanged, ht']
      exact hi.erase rfl (fun _ h => h) .failed
    | @ready job hjob hok =>
      have ht' : (m.beforeEvict key).told = [] := ht
      rw [told_statusChanged, told_evict, ht']
      refine hi.erase rfl (fun k h => ?_) .ready
      have hkept : dashExists k (deleteMp4 key m.disk) = true := dashExists_of_evictToCapacity h
      exact hkept
  | @exportDone requestId ok outputPath err hs =>
    cases hs with
    | ignored hexp =>
      rw [ht]
      exact hi
    | @finished e hexp =>
      have ht' : ({ m with
          exportingRefcount := releaseRefcount e.key.hex m.exportingRefcount
          exports := m.exports.erase requestId } : Machine).told = [] := ht
      rw [told_append _ rfl, ht']
      exact hi.frame rfl fun _ _ _ _ h => h

theorem Mirrors.step {cfg : Config} {a : Action} (hi : Mirrors V m) (ho : Ownership m)
    (hn : Named m) (ha : a ≠ .restart) (h : Machine.step cfg a m = some m') :
    Mirrors (hear m'.told V) m' := by
  cases stepped h with
  | @handle env e q m' hq hclock hs =>
    have hi' : Mirrors V (m.popped env q) := hi.frame rfl fun _ _ _ _ h => h
    exact hi'.dispatched rfl hs
  | post | access | requestExport | dropExport | downloadWrite | downloadExit | packageExit
  | exportWrite | exportExit =>
    rw [told_of_not_handle h nofun]
    exact hi.frame rfl fun _ _ _ _ h => h
  | @packageWrite w p hw =>
    rw [told_of_not_handle h nofun]
    refine hi.frame rfl fun k job hj hs hdash => ?_
    unfold dashExists at hdash ⊢
    rw [Table.lookup_insert_eq] at hdash
    by_cases hk : dashDir k = w.outputDir
    · rw [(hn.packages w hw).2.1] at hk
      obtain rfl := dashDir_inj hk
      obtain ⟨-, -, job', hj', -, howns⟩ := ho.of_mem (mem_tokens_of_packager hw)
      obtain rfl := Option.some.inj (hj.symm.trans hj')
      rw [howns.1] at hs
      cases hs
    · rwa [if_neg hk] at hdash
  | restart => exact absurd rfl ha

end Machine

namespace Daemon

/-- The listener once every status on its way has been delivered, in order. -/
def settled (d : Daemon) : Listener :=
  d.toHttp.foldl (fun l s =>
    match s with
    | .statusChanged keyHex status url => l.onStatusChanged keyHex status url
    | .exportFinished _ _ _ _ => l) d.listener

def view (d : Daemon) (keyHex : String) : Option StreamStatus :=
  d.settled.statusCache.lookup keyHex

variable {cfg : DaemonConfig} {d d' : Daemon}

theorem view_eq (d : Daemon) : d.view = hear (statuses d.toHttp) d.listener.statusCache.lookup := by
  have h : ∀ (q : List Signal) (l : Listener),
      (q.foldl (fun l s =>
        match s with
        | .statusChanged keyHex status url => l.onStatusChanged keyHex status url
        | .exportFinished _ _ _ _ => l) l).statusCache.lookup =
        hear (statuses q) l.statusCache.lookup := by
    intro q
    induction q with
    | nil => exact fun _ => rfl
    | cons s q ih =>
      intro l
      rw [List.foldl_cons, ih]
      cases s with
      | statusChanged keyHex status url => exact hear_insert l.statusCache keyHex status _
      | exportFinished requestId outputPath ok error => rfl
  exact h d.toHttp d.listener

theorem view_congr (hq : d'.toHttp = d.toHttp)
    (hc : d'.listener.statusCache = d.listener.statusCache) : d'.view = d.view := by
  rw [view_eq, view_eq, hq, hc]

/-- What the listener does by itself does not change the view. -/
theorem view_quiet {a : Action} (h : step cfg a d = some d') (ha : a.works = false) :
    d'.view = d.view := by
  cases stepped h with
  | postRejected | downloadRejected => rfl
  | posted | dashGet | accepted => exact view_congr rfl rfl
  | @heard keyHex url status q hq =>
    rw [view_eq, view_eq, hq]
    exact hear_insert d.listener.statusCache keyHex status (statuses q)
  | unmatched hq hp =>
    rw [view_eq, view_eq, hq]
    rfl
  | answered hq hp hm =>
    rw [view_eq, view_eq, hq]
    rfl
  | worked => cases ha

theorem view_work {b : Machine.Action} (h : step cfg (.work b) d = some d') :
    d'.view = hear d'.machine.told d.view := by
  cases stepped h with
  | worked hb hs =>
    rw [view_eq, view_eq, statuses_append, hear_append]
    rfl

/-- The view changes only by what a step of the processor's world tells. -/
theorem view_step {a : Action} (h : step cfg a d = some d') :
    (d'.machine = d.machine ∧ d'.view = d.view) ∨
      ∃ b : Machine.Action, b ≠ .restart ∧ Machine.step cfg.processor b d.machine = some d'.machine ∧
        d'.view = hear d'.machine.told d.view := by
  have quiet : a.works = false → (d'.machine = d.machine ∧ d'.view = d.view) ∨
      ∃ b : Machine.Action, b ≠ .restart ∧ Machine.step cfg.processor b d.machine = some d'.machine ∧
        d'.view = hear d'.machine.told d.view := by
    intro ha
    rcases machine_quiet h ha with hm | ⟨b, hin, hb, hs⟩
    · exact Or.inl ⟨hm, view_quiet h ha⟩
    · refine Or.inr ⟨b, hb, hs, ?_⟩
      have hhandle : ∀ env, b ≠ .handle env := by
        rintro env rfl
        cases hin
      rw [Machine.told_of_not_handle hs hhandle]
      exact view_quiet h ha
  cases a with
  | work b =>
    obtain ⟨hb, hs⟩ := machine_work h
    refine Or.inr ⟨b, fun he => ?_, hs, view_work h⟩
    rw [he] at hb
    cases hb
  | playbackPost | dashGet | downloadGet | deliver => exact quiet rfl

/-- The mirror agrees with the job table in every state the daemon reaches. -/
theorem mirrors {disk : Disk} (h : (system cfg).Reachable (start disk) d) :
    Machine.Mirrors d.view d.machine := by
  suffices hall : Machine.Ownership d.machine ∧ Machine.Named d.machine ∧
      Machine.Mirrors d.view d.machine from hall.2.2
  refine h.invariant (I := fun d => Machine.Ownership d.machine ∧ Machine.Named d.machine ∧
    Machine.Mirrors d.view d.machine) ?_ fun a d d' ⟨ho, hn, hi⟩ hs => ?_
  · refine ⟨fun _ => .idle, Machine.named_idle rfl rfl rfl rfl, fun _ => .absent, ?_⟩
    intro k job hk
    cases hk
  · rcases view_step hs with ⟨hm, hv⟩ | ⟨b, hb, hs', hv⟩
    · rw [hm, hv]
      exact ⟨ho, hn, hi⟩
    · rw [hv]
      exact ⟨ho.step hs', hn.step hs', hi.step ho hn hb hs'⟩

/-- What the listener will hold for each key, against the job of the key. -/
theorem view_agrees {disk : Disk} (h : (system cfg).Reachable (start disk) d) (k : PlaybackKey) :
    (d.view k.hex = some .downloading ↔
      ∃ job, d.machine.activeJobs.lookup k = some job ∧ job.state = .downloading) ∧
    (d.view k.hex = some .packaging →
      ∃ job, d.machine.activeJobs.lookup k = some job ∧ job.state = .packaging) ∧
    (∀ job, d.machine.activeJobs.lookup k = some job → job.state = .packaging →
      d.view k.hex = some .packaging ∨ d.view k.hex = some .ready) ∧
    d.view k.hex ≠ some .pending ∧
    (k ∉ d.machine.activeJobs →
      d.view k.hex = none ∨ d.view k.hex = some .ready ∨ d.view k.hex = some .failed) := by
  have hshow := (mirrors h).shows_ k
  rw [← AList.lookup_eq_none]
  generalize d.view k.hex = v at hshow
  generalize d.machine.activeJobs.lookup k = o at hshow
  cases hshow with
  | absent | ready | failed => simp
  | downloading hs | packaging hs | early hs => simp [hs]

namespace Sample

/-- The recording of one camera is downloaded and goes on to its packaging run, that of
another one is being downloaded, and the listener has heard of both. -/
def twoRecordings : List Action :=
  [post, otherPost, .work (.handle Machine.Sample.env), .work (.handle Machine.Sample.env),
    .work (.downloadExit recorder true ""), .deliver, .deliver,
    .work (.handle Machine.Sample.env), .deliver]

end Sample

theorem view_agrees_twoRecordings :
    ∃ h : ((system Sample.twoCameras).replay (start {}) Sample.twoRecordings).isSome = true,
      let d := (((system Sample.twoCameras).replay (start {}) Sample.twoRecordings).get h).2
      (∃ job, d.machine.activeJobs.lookup ⟨"00000000000000bb"⟩ = some job ∧
        job.state = .downloading) ∧
      (∃ job, d.machine.activeJobs.lookup ⟨"00000000000000aa"⟩ = some job ∧
        job.state = .packaging ∧
        (d.view "00000000000000aa" = some .packaging ∨ d.view "00000000000000aa" = some .ready)) ∧
      d.view "00000000000000aa" ≠ some .pending ∧
      (d.view "00000000000000cc" = none ∨ d.view "00000000000000cc" = some .ready ∨
        d.view "00000000000000cc" = some .failed) := by
  have hsome : ((system Sample.twoCameras).replay (start {})
      Sample.twoRecordings).isSome = true := by decide
  have hshown : let d := (((system Sample.twoCameras).replay (start {})
      Sample.twoRecordings).get hsome).2
      d.view "00000000000000bb" = some .downloading ∧ d.view "00000000000000aa" = some .packaging ∧
        ⟨"00000000000000cc"⟩ ∉ d.machine.activeJobs := by decide +revert
  obtain ⟨hdownloading, hpackaging, hnone⟩ := hshown
  have hr := (System.run_get hsome).reachable
  obtain ⟨-, hjob, hview, hpending, -⟩ := view_agrees hr ⟨"00000000000000aa"⟩
  obtain ⟨job, hj, hstate⟩ := hjob hpackaging
  exact ⟨hsome, (view_agrees hr ⟨"00000000000000bb"⟩).1.mp hdownloading,
    ⟨job, hj, hstate, hview job hj hstate⟩, hpending,
    (view_agrees hr ⟨"00000000000000cc"⟩).2.2.2.2 hnone⟩

end Daemon

end VisionPlayback
