import VisionPlayback.Processor.Machine

/-!
# What each slot can do

One relation a slot, with a named case for each way through its body and the
machine that case leaves. Every invariant of the processor is a case analysis on
these relations; no later proof unfolds a slot.
-/

namespace VisionPlayback.Machine

open Lib StreamCache

/-- The job a request starts to download. -/
def downloadJob (w : Nat) (r : PlaybackRequest) : Job :=
  { key := r.key, channel := r.channel, state := .downloading, downloader := some w }

/-- The job of the cached-download shortcut, before its packager is made. -/
def pendingJob (r : PlaybackRequest) : Job := { key := r.key, channel := r.channel }

/-- A machine whose login cache and calls are those after `ensureLoggedIn`. -/
def afterLogin (cache : LoginUseCase.Cache) (calls : List AuthCall) (m : Machine) : Machine :=
  { m with loginCache := cache, calls := m.calls ++ calls.map .auth }

/-- A download started for a request that carries its token. -/
def launchDownloader (r : PlaybackRequest) (m : Machine) : Machine :=
  let w : Downloader := ⟨m.nextWorker, r, mp4Path r.key⟩
  { m with
    nextWorker := m.nextWorker + 1
    activeJobs := m.activeJobs.insert r.key (downloadJob w.id r)
    downloaders := m.downloaders ++ [w]
    lastDownload := Function.update m.lastDownload r.key (some .running)
    calls := m.calls ++ [.emplaceJob r.key true,
      .emit (.statusChanged r.key.hex .downloading ""), .startDownload w] }

inductive Requested (cfg : Config) (env : Env) (r : PlaybackRequest) (m : Machine) :
    Machine → Prop
  | ready (hdash : dashExists r.key m.disk = true) :
      Requested cfg env r m (m.statusChanged r.key .ready (mpdUrl r.key cfg.hostBase))
  | active (hdash : dashExists r.key m.disk = false) (hjob : r.key ∈ m.activeJobs) :
      Requested cfg env r m m
  | refused {token : SessionToken} {cache : LoginUseCase.Cache} {calls : List AuthCall}
      (hdash : dashExists r.key m.disk = false) (hjob : r.key ∉ m.activeJobs)
      (hlogin : LoginUseCase.ensureLoggedIn cfg.loginIdle env.login r.credentials m.loginCache =
        (token, cache, calls)) (htoken : token < 0) :
      Requested cfg env r m ((m.afterLogin cache calls).statusChanged r.key .failed "")
  | shortcut {token : SessionToken} {cache : LoginUseCase.Cache} {calls : List AuthCall}
      (hdash : dashExists r.key m.disk = false) (hjob : r.key ∉ m.activeJobs)
      (hlogin : LoginUseCase.ensureLoggedIn cfg.loginIdle env.login r.credentials m.loginCache =
        (token, cache, calls)) (htoken : ¬ token < 0) (hmp4 : mp4Exists r.key m.disk = true) :
      Requested cfg env r m
        ((((m.afterLogin cache calls).call (.emplaceJob r.key true)).statusChanged
          r.key .pending "").launchPackager env r.key (pendingJob r))
  | download {token : SessionToken} {cache : LoginUseCase.Cache} {calls : List AuthCall}
      (hdash : dashExists r.key m.disk = false) (hjob : r.key ∉ m.activeJobs)
      (hlogin : LoginUseCase.ensureLoggedIn cfg.loginIdle env.login r.credentials m.loginCache =
        (token, cache, calls)) (htoken : ¬ token < 0) (hmp4 : mp4Exists r.key m.disk = false) :
      Requested cfg env r m
        ((m.afterLogin cache calls).launchDownloader { r with token := token })

/-- A job put into the table just before is replaced by the packager's. -/
theorem launchPackager_insert (env : Env) (key : PlaybackKey) (job job' : Job) (m : Machine) :
    launchPackager env key job { m with activeJobs := m.activeJobs.insert key job' } =
      launchPackager env key job m := by
  simp only [launchPackager, AList.insert_insert]

theorem startPackage_insert (env : Env) (key : PlaybackKey) (job : Job) (m : Machine) :
    startPackage env key { m with activeJobs := m.activeJobs.insert key job } =
      launchPackager env key job m := by
  rw [← launchPackager_insert env key job job m]
  simp only [startPackage, AList.lookup_insert]

theorem emplaceJob_of_notMem {key : PlaybackKey} {job : Job} {m : Machine}
    (h : key ∉ m.activeJobs) : m.emplaceJob key job =
      { m with activeJobs := m.activeJobs.insert key job }.call (.emplaceJob key true) := by
  simp only [emplaceJob, Table.emplace_of_notMem h]

theorem startDownload_of_notMem {r : PlaybackRequest} {m : Machine} (h : r.key ∉ m.activeJobs) :
    m.startDownload r = m.launchDownloader r := by
  simp only [startDownload, emplaceJob_of_notMem h, launchDownloader, call, downloadJob,
    List.append_assoc, List.cons_append, List.nil_append]

theorem requested (cfg : Config) (env : Env) (r : PlaybackRequest) (m : Machine) :
    Requested cfg env r m (m.onPlaybackRequested cfg env r) := by
  cases hdash : dashExists r.key m.disk with
  | true =>
    have e : m.onPlaybackRequested cfg env r =
        m.statusChanged r.key .ready (mpdUrl r.key cfg.hostBase) := by
      simp only [onPlaybackRequested, hdash, if_true]
    rw [e]
    exact .ready hdash
  | false =>
    by_cases hjob : r.key ∈ m.activeJobs
    · have e : m.onPlaybackRequested cfg env r = m := by
        simp only [onPlaybackRequested, hdash, hjob, Bool.false_eq_true, if_false, if_true]
      rw [e]
      exact .active hdash hjob
    · rcases hlogin : LoginUseCase.ensureLoggedIn cfg.loginIdle env.login r.credentials
        m.loginCache with ⟨token, cache, calls⟩
      by_cases htoken : token < 0
      · have e : m.onPlaybackRequested cfg env r =
            (m.afterLogin cache calls).statusChanged r.key .failed "" := by
          simp only [onPlaybackRequested, hdash, hjob, ensureLoggedIn, hlogin, htoken,
            Bool.false_eq_true, if_false, if_true, afterLogin]
        rw [e]
        exact .refused hdash hjob hlogin htoken
      · have hjob' : r.key ∉ (m.afterLogin cache calls).activeJobs := hjob
        cases hmp4 : mp4Exists r.key m.disk with
        | true =>
          have e : m.onPlaybackRequested cfg env r =
              (((m.afterLogin cache calls).emplaceJob r.key (pendingJob r)).statusChanged
                r.key .pending "").startPackage env r.key := by
            simp only [onPlaybackRequested, hdash, hjob, ensureLoggedIn, hlogin, htoken, hmp4,
              Bool.false_eq_true, if_false, if_true, afterLogin, pendingJob]
          rw [e, emplaceJob_of_notMem hjob']
          have h : Requested cfg env r m _ := .shortcut hdash hjob hlogin htoken hmp4
          rw [← startPackage_insert] at h
          exact h
        | false =>
          have e : m.onPlaybackRequested cfg env r =
              (m.afterLogin cache calls).startDownload { r with token := token } := by
            simp only [onPlaybackRequested, hdash, hjob, ensureLoggedIn, hlogin, htoken, hmp4,
              Bool.false_eq_true, if_false, afterLogin]
          rw [e, startDownload_of_notMem (r := { r with token := token }) hjob']
          exact .download hdash hjob hlogin htoken hmp4

inductive DownloadHandled (env : Env) (key : PlaybackKey) (success : Bool) (m : Machine) :
    Machine → Prop
  | ignored (hjob : m.activeJobs.lookup key = none) : DownloadHandled env key success m m
  | failed {job : Job} (hjob : m.activeJobs.lookup key = some job) (hok : success = false) :
      DownloadHandled env key success m
        ({ m with activeJobs := m.activeJobs.erase key }.statusChanged key .failed "")
  | packaging {job : Job} (hjob : m.activeJobs.lookup key = some job) (hok : success = true) :
      DownloadHandled env key success m
        (m.launchPackager env key { job with state := .packaging, downloader := none })

theorem downloadHandled (env : Env) (key : PlaybackKey) (success : Bool) (m : Machine) :
    DownloadHandled env key success m (m.onDownloadFinished env key success) := by
  unfold onDownloadFinished
  cases hjob : m.activeJobs.lookup key with
  | none => exact .ignored hjob
  | some job =>
    cases hok : success with
    | false => exact .failed hjob rfl
    | true =>
      have h : DownloadHandled env key true m _ := .packaging hjob rfl
      rw [← startPackage_insert] at h
      exact h

/-- The machine an eviction pass runs on: the job is out of the table and the
raw download is deleted. -/
def beforeEvict (key : PlaybackKey) (m : Machine) : Machine :=
  { m with activeJobs := m.activeJobs.erase key, disk := deleteMp4 key m.disk }

inductive PackageHandled (cfg : Config) (env : Env) (key : PlaybackKey) (success : Bool)
    (m : Machine) : Machine → Prop
  | ignored (hjob : m.activeJobs.lookup key = none) : PackageHandled cfg env key success m m
  | failed {job : Job} (hjob : m.activeJobs.lookup key = some job) (hok : success = false) :
      PackageHandled cfg env key success m
        ({ m with activeJobs := m.activeJobs.erase key }.statusChanged key .failed "")
  | ready {job : Job} (hjob : m.activeJobs.lookup key = some job) (hok : success = true) :
      PackageHandled cfg env key success m
        (((m.beforeEvict key).evict cfg env).statusChanged key .ready (mpdUrl key cfg.hostBase))

theorem packageHandled (cfg : Config) (env : Env) (key : PlaybackKey) (success : Bool)
    (m : Machine) : PackageHandled cfg env key success m
      (m.onPackageFinished cfg env key success) := by
  unfold onPackageFinished
  cases hjob : m.activeJobs.lookup key with
  | none => exact .ignored hjob
  | some job =>
    cases hok : success with
    | false => exact .failed hjob rfl
    | true => exact .ready hjob rfl

/-- An export entered in both tables, and its exporter started. -/
def launchExporter (w : ClipExport) (key : PlaybackKey) (m : Machine) : Machine :=
  { m with
    exports := (Table.emplace w.requestId (Export.mk w key) m.exports).1
    exportingRefcount := m.exportingRefcount.insert key.hex
      ((m.exportingRefcount.lookup key.hex).getD 0 + 1)
    exporters := m.exporters ++ [w]
    calls := m.calls ++ [.exportClip w] }

/-- The exporter a request asks for. -/
def clipExport (requestId : Nat) (keyHex : String) (startSec endSec : Int) : ClipExport :=
  ⟨requestId, manifestPath ⟨keyHex⟩, exportPath requestId, startSec, endSec⟩

inductive ExportRequested (requestId : Nat) (keyHex : String) (startSec endSec : Int)
    (m : Machine) : Machine → Prop
  | notReady (hdash : dashExists ⟨keyHex⟩ m.disk = false) :
      ExportRequested requestId keyHex startSec endSec m
        (m.call (.emit (.exportFinished requestId "" false "not ready")))
  | started (hdash : dashExists ⟨keyHex⟩ m.disk = true) :
      ExportRequested requestId keyHex startSec endSec m
        (m.launchExporter (clipExport requestId keyHex startSec endSec) ⟨keyHex⟩)

theorem exportRequested (requestId : Nat) (keyHex : String) (startSec endSec : Int)
    (m : Machine) : ExportRequested requestId keyHex startSec endSec m
      (m.onExportRequested requestId keyHex startSec endSec) := by
  cases hdash : dashExists ⟨keyHex⟩ m.disk with
  | false =>
    have e : m.onExportRequested requestId keyHex startSec endSec =
        m.call (.emit (.exportFinished requestId "" false "not ready")) := by
      simp only [onExportRequested, hdash, Bool.not_false, if_true]
    rw [e]
    exact .notReady hdash
  | true =>
    have e : m.onExportRequested requestId keyHex startSec endSec =
        m.launchExporter (clipExport requestId keyHex startSec endSec) ⟨keyHex⟩ := by
      simp only [onExportRequested, hdash, Bool.not_true, Bool.false_eq_true, if_false]
      rfl
    rw [e]
    exact .started hdash

inductive ExportHandled (requestId : Nat) (ok : Bool) (outputPath err : String) (m : Machine) :
    Machine → Prop
  | ignored (hexp : m.exports.lookup requestId = none) :
      ExportHandled requestId ok outputPath err m m
  | finished {e : Export} (hexp : m.exports.lookup requestId = some e) :
      ExportHandled requestId ok outputPath err m
        ({ m with
          exportingRefcount := releaseRefcount e.key.hex m.exportingRefcount
          exports := m.exports.erase requestId }.call
            (.emit (.exportFinished requestId outputPath ok err)))

theorem exportHandled (requestId : Nat) (ok : Bool) (outputPath err : String) (m : Machine) :
    ExportHandled requestId ok outputPath err m (m.onExportDone requestId ok outputPath err) := by
  unfold onExportDone
  cases hexp : m.exports.lookup requestId with
  | none => exact .ignored hexp
  | some e => exact .finished hexp

inductive Dispatched (cfg : Config) (env : Env) (m m' : Machine) : Event → Prop
  | playbackRequested {r : PlaybackRequest} (hs : Requested cfg env r m m') :
      Dispatched cfg env m m' (.playbackRequested r)
  | keyAccessed {keyHex : String} (hs : m' = m.onKeyAccessed env keyHex) :
      Dispatched cfg env m m' (.keyAccessed keyHex)
  | exportRequested {requestId : Nat} {keyHex : String} {startSec endSec : Int}
      (hs : ExportRequested requestId keyHex startSec endSec m m') :
      Dispatched cfg env m m' (.exportRequested requestId keyHex startSec endSec)
  | downloadFinished {worker : Nat} {key : PlaybackKey} {success : Bool} {err : String}
      (hs : DownloadHandled env key success m m') :
      Dispatched cfg env m m' (.downloadFinished worker key success err)
  | packageFinished {worker : Nat} {key : PlaybackKey} {success : Bool} {err : String}
      (hs : PackageHandled cfg env key success m m') :
      Dispatched cfg env m m' (.packageFinished worker key success err)
  | exportDone {requestId : Nat} {ok : Bool} {outputPath err : String}
      (hs : ExportHandled requestId ok outputPath err m m') :
      Dispatched cfg env m m' (.exportDone requestId ok outputPath err)

theorem dispatched (cfg : Config) (env : Env) (e : Event) (m : Machine) :
    Dispatched cfg env m (m.dispatch cfg env e) e := by
  cases e with
  | playbackRequested r => exact .playbackRequested (requested cfg env r m)
  | keyAccessed keyHex => exact .keyAccessed rfl
  | exportRequested requestId keyHex startSec endSec =>
    exact .exportRequested (exportRequested requestId keyHex startSec endSec m)
  | downloadFinished w key success err => exact .downloadFinished (downloadHandled env key success m)
  | packageFinished w key success err => exact .packageFinished (packageHandled cfg env key success m)
  | exportDone requestId ok outputPath err =>
    exact .exportDone (exportHandled requestId ok outputPath err m)

/-- A slot leaves the queue to what comes after it. -/
theorem Dispatched.queue_eq {cfg : Config} {env : Env} {m m' : Machine} {e : Event}
    (h : Dispatched cfg env m m' e) : m'.queue = m.queue := by
  cases h with
  | playbackRequested hs => cases hs <;> rfl
  | keyAccessed hs => rw [hs]; rfl
  | exportRequested hs => cases hs <;> rfl
  | downloadFinished hs => cases hs <;> rfl
  | packageFinished hs => cases hs <;> rfl
  | exportDone hs => cases hs <;> rfl

theorem Dispatched.requestIds_eq {cfg : Config} {env : Env} {m m' : Machine} {e : Event}
    (h : Dispatched cfg env m m' e) : m'.requestIds = m.requestIds := by
  cases h with
  | playbackRequested hs => cases hs <;> rfl
  | keyAccessed hs => rw [hs]; rfl
  | exportRequested hs => cases hs <;> rfl
  | downloadFinished hs => cases hs <;> rfl
  | packageFinished hs => cases hs <;> rfl
  | exportDone hs => cases hs <;> rfl

/-! ## Calls -/

/-- Why a slot makes a call: what the machine is like when the slot starts. -/
inductive Called (cfg : Config) (env : Env) (m : Machine) : Event → Call → Prop
  | readyNow {r : PlaybackRequest} (hdash : dashExists r.key m.disk = true) :
      Called cfg env m (.playbackRequested r)
        (.emit (.statusChanged r.key.hex .ready (mpdUrl r.key cfg.hostBase)))
  | auth {r : PlaybackRequest} {c : AuthCall} (hdash : dashExists r.key m.disk = false)
      (hjob : r.key ∉ m.activeJobs)
      (hc : c ∈ (LoginUseCase.ensureLoggedIn cfg.loginIdle env.login r.credentials
        m.loginCache).2.2) : Called cfg env m (.playbackRequested r) (.auth c)
  | emplaceJob {r : PlaybackRequest} (hjob : r.key ∉ m.activeJobs) :
      Called cfg env m (.playbackRequested r) (.emplaceJob r.key true)
  | startDownload {r : PlaybackRequest} {token : SessionToken} :
      Called cfg env m (.playbackRequested r)
        (.startDownload ⟨m.nextWorker, { r with token := token }, mp4Path r.key⟩)
  | repackage {r : PlaybackRequest} (hdash : dashExists r.key m.disk = false)
      (hjob : r.key ∉ m.activeJobs) (hmp4 : mp4Exists r.key m.disk = true) :
      Called cfg env m (.playbackRequested r)
        (.package ⟨m.nextWorker, r.key, mp4Path r.key, dashDir r.key⟩)
  | package {w : Nat} {key : PlaybackKey} {err : String} (hjob : key ∈ m.activeJobs) :
      Called cfg env m (.downloadFinished w key true err)
        (.package ⟨m.nextWorker, key, mp4Path key, dashDir key⟩)
  | status {e : Event} {keyHex url : String} {status : StreamStatus}
      (hs : status ∈ [.pending, .downloading, .packaging, .failed]) :
      Called cfg env m e (.emit (.statusChanged keyHex status url))
  | removed {w : Nat} {key : PlaybackKey} {err hex : String} (hjob : key ∈ m.activeJobs)
      (hex_mem : hex ∈ (evictToCapacity cfg.maxDownloadsBytes env.evict
        ((m.beforeEvict key).skipKeys env) (deleteMp4 key m.disk)).2) :
      Called cfg env m (.packageFinished w key true err) (.removed hex)
  | packaged {w : Nat} {key : PlaybackKey} {err : String} (hjob : key ∈ m.activeJobs) :
      Called cfg env m (.packageFinished w key true err)
        (.emit (.statusChanged key.hex .ready (mpdUrl key cfg.hostBase)))
  | exportClip {requestId : Nat} {keyHex : String} {startSec endSec : Int}
      (hdash : dashExists ⟨keyHex⟩ m.disk = true) :
      Called cfg env m (.exportRequested requestId keyHex startSec endSec)
        (.exportClip (clipExport requestId keyHex startSec endSec))
  | exportRefused {requestId : Nat} {keyHex : String} {startSec endSec : Int}
      (hdash : dashExists ⟨keyHex⟩ m.disk = false) :
      Called cfg env m (.exportRequested requestId keyHex startSec endSec)
        (.emit (.exportFinished requestId "" false "not ready"))
  | exportFinished {requestId : Nat} {outputPath err : String} {ok : Bool} :
      Called cfg env m (.exportDone requestId ok outputPath err)
        (.emit (.exportFinished requestId outputPath ok err))

theorem evict_calls (cfg : Config) (env : Env) (m : Machine) : (m.evict cfg env).calls =
    m.calls ++ (evictToCapacity cfg.maxDownloadsBytes env.evict (m.skipKeys env)
      m.disk).2.map .removed := rfl

theorem Requested.called {cfg : Config} {env : Env} {r : PlaybackRequest} {m m' : Machine}
    {c : Call} (h : Requested cfg env r m m') (hcalls : m.calls = []) (hc : c ∈ m'.calls) :
    Called cfg env m (.playbackRequested r) c := by
  cases h with
  | ready hdash =>
    simp only [statusChanged, call, hcalls, List.nil_append, List.mem_singleton] at hc
    rw [hc]
    exact .readyNow hdash
  | active hdash hjob => rw [hcalls] at hc; cases hc
  | refused hdash hjob hlogin htoken =>
    simp only [statusChanged, call, afterLogin, hcalls, List.nil_append, List.mem_append,
      List.mem_map, List.mem_singleton] at hc
    rcases hc with ⟨a, ha, rfl⟩ | rfl
    · exact .auth hdash hjob (by rw [hlogin]; exact ha)
    · exact .status (by decide)
  | shortcut hdash hjob hlogin htoken hmp4 =>
    simp only [launchPackager, statusChanged, call, afterLogin, hcalls, List.nil_append,
      List.mem_append, List.mem_map, List.mem_cons, List.not_mem_nil, or_false] at hc
    rcases hc with ((⟨a, ha, rfl⟩ | rfl) | rfl) | rfl | rfl
    · exact .auth hdash hjob (by rw [hlogin]; exact ha)
    · exact .emplaceJob hjob
    · exact .status (by decide)
    · exact .status (by decide)
    · exact .repackage hdash hjob hmp4
  | download hdash hjob hlogin htoken hmp4 =>
    simp only [launchDownloader, afterLogin, hcalls, List.nil_append,
      List.mem_append, List.mem_map, List.mem_cons, List.not_mem_nil, or_false] at hc
    rcases hc with ⟨a, ha, rfl⟩ | rfl | rfl | rfl
    · exact .auth hdash hjob (by rw [hlogin]; exact ha)
    · exact .emplaceJob hjob
    · exact .status (by decide)
    · exact .startDownload

theorem called {cfg : Config} {env : Env} {m m' : Machine} {e : Event} {c : Call}
    (h : Dispatched cfg env m m' e) (hcalls : m.calls = []) (hc : c ∈ m'.calls) :
    Called cfg env m e c := by
  cases h with
  | playbackRequested hs => exact hs.called hcalls hc
  | keyAccessed hs =>
    rw [hs] at hc
    change c ∈ m.calls at hc
    rw [hcalls] at hc
    cases hc
  | exportRequested hs =>
    cases hs with
    | notReady hdash =>
      simp only [call, hcalls, List.nil_append, List.mem_singleton] at hc
      rw [hc]
      exact .exportRefused hdash
    | started hdash =>
      simp only [launchExporter, hcalls, List.nil_append, List.mem_singleton] at hc
      rw [hc]
      exact .exportClip hdash
  | downloadFinished hs =>
    cases hs with
    | ignored hjob => rw [hcalls] at hc; cases hc
    | failed hjob hok =>
      simp only [statusChanged, call, hcalls, List.nil_append, List.mem_singleton] at hc
      rw [hc]
      exact .status (by decide)
    | packaging hjob hok =>
      obtain rfl := hok
      simp only [launchPackager, hcalls, List.nil_append, List.mem_cons, List.not_mem_nil,
        or_false] at hc
      rcases hc with rfl | rfl
      · exact .status (by decide)
      · exact .package (Table.mem_iff_lookup.mpr ⟨_, hjob⟩)
  | packageFinished hs =>
    cases hs with
    | ignored hjob => rw [hcalls] at hc; cases hc
    | failed hjob hok =>
      simp only [statusChanged, call, hcalls, List.nil_append, List.mem_singleton] at hc
      rw [hc]
      exact .status (by decide)
    | ready hjob hok =>
      obtain rfl := hok
      simp only [statusChanged, call, evict_calls, beforeEvict, hcalls, List.nil_append,
        List.mem_append, List.mem_map, List.mem_singleton] at hc
      rcases hc with ⟨hex, hhex, rfl⟩ | rfl
      · exact .removed (Table.mem_iff_lookup.mpr ⟨_, hjob⟩) hhex
      · exact .packaged (Table.mem_iff_lookup.mpr ⟨_, hjob⟩)
  | exportDone hs =>
    cases hs with
    | ignored hexp => rw [hcalls] at hc; cases hc
    | finished hexp =>
      simp only [call, hcalls, List.nil_append, List.mem_singleton] at hc
      rw [hc]
      exact .exportFinished

/-! ## Steps -/

/-- The machine a slot starts on: its event is taken off the queue. -/
def popped (env : Env) (q : List Event) (m : Machine) : Machine :=
  { m with queue := q, steadyNow := env.login.now, calls := [] }

inductive Stepped (cfg : Config) (m : Machine) : Action → Machine → Prop
  | post {r : PlaybackRequest} (hhex : isHex16 r.key.hex = true) :
      Stepped cfg m (.post r)
        { m with queue := m.queue ++ [.playbackRequested r], calls := [] }
  | access {keyHex : String} :
      Stepped cfg m (.access keyHex)
        { m with queue := m.queue ++ [.keyAccessed keyHex], calls := [] }
  | requestExport {requestId : Nat} {keyHex : String} {startSec endSec : Int} :
      Stepped cfg m (.requestExport requestId keyHex startSec endSec)
        { m with
          queue := m.queue ++ [.exportRequested requestId keyHex startSec endSec]
          requestIds := requestId :: m.requestIds
          calls := [] }
  | dropExport {path : String} :
      Stepped cfg m (.dropExport path)
        { m with disk := { m.disk with exports := m.disk.exports.erase path }, calls := [] }
  | handle {env : Env} {e : Event} {q : List Event} {m' : Machine} (hq : m.queue = e :: q)
      (hclock : m.steadyNow ≤ env.login.sweepNow ∧ env.login.sweepNow ≤ env.login.now)
      (hs : Dispatched cfg env (m.popped env q) m' e) : Stepped cfg m (.handle env) m'
  | downloadWrite {w : Downloader} {f : File} (hw : w ∈ m.downloaders) :
      Stepped cfg m (.downloadWrite w f)
        { m with disk := { m.disk with raw := m.disk.raw.insert w.outputPath f }, calls := [] }
  | downloadExit {w : Downloader} {ok : Bool} {err : String} (hw : w ∈ m.downloaders) :
      Stepped cfg m (.downloadExit w ok err)
        { m with
          queue := m.queue ++ [.downloadFinished w.id w.request.key ok err]
          downloaders := m.downloaders.erase w
          lastDownload := Function.update m.lastDownload w.request.key (some (.ended ok))
          calls := [] }
  | packageWrite {w : Packager} {p : PackageDir} (hw : w ∈ m.packagers) :
      Stepped cfg m (.packageWrite w p)
        { m with disk := { m.disk with dirs := m.disk.dirs.insert w.outputDir p }, calls := [] }
  | packageExit {w : Packager} {ok : Bool} {err : String} (hw : w ∈ m.packagers) :
      Stepped cfg m (.packageExit w ok err)
        { m with
          queue := m.queue ++ [.packageFinished w.id w.key ok err]
          packagers := m.packagers.erase w
          lastPackage := Function.update m.lastPackage w.key (some (.ended ok))
          calls := [] }
  | exportWrite {w : ClipExport} {f : File} (hw : w ∈ m.exporters) :
      Stepped cfg m (.exportWrite w f)
        { m with
          disk := { m.disk with exports := m.disk.exports.insert w.outputPath ⟨f, w⟩ }
          calls := [] }
  | exportExit {w : ClipExport} {ok : Bool} {err : String} (hw : w ∈ m.exporters) :
      Stepped cfg m (.exportExit w ok err)
        { m with
          queue := m.queue ++ [.exportDone w.requestId ok (if ok then w.outputPath else "")
            (if ok then "" else err)]
          exporters := m.exporters.erase w
          calls := [] }
  | restart : Stepped cfg m .restart (restart { m with calls := [] })

theorem stepped {cfg : Config} {a : Action} {m m' : Machine} (h : step cfg a m = some m') :
    Stepped cfg m a m' := by
  unfold step at h
  cases a with
  | post r =>
    obtain ⟨hhex, he⟩ := Option.ite_none_right_eq_some.mp h
    obtain rfl := Option.some.inj he
    exact .post hhex
  | access keyHex =>
    obtain rfl := Option.some.inj h
    exact .access
  | requestExport requestId keyHex startSec endSec =>
    obtain rfl := Option.some.inj h
    exact .requestExport
  | dropExport path =>
    obtain rfl := Option.some.inj h
    exact .dropExport
  | handle env =>
    simp only [act] at h
    cases hq : m.queue with
    | nil => rw [hq] at h; cases h
    | cons e q =>
      rw [hq] at h
      obtain ⟨hclock, he⟩ := Option.ite_none_right_eq_some.mp h
      obtain rfl := Option.some.inj he
      exact .handle hq hclock (dispatched cfg env e (m.popped env q))
  | downloadWrite w f =>
    obtain ⟨hw, he⟩ := Option.ite_none_right_eq_some.mp h
    obtain rfl := Option.some.inj he
    exact .downloadWrite hw
  | downloadExit w ok err =>
    obtain ⟨hw, he⟩ := Option.ite_none_right_eq_some.mp h
    obtain rfl := Option.some.inj he
    exact .downloadExit hw
  | packageWrite w p =>
    obtain ⟨hw, he⟩ := Option.ite_none_right_eq_some.mp h
    obtain rfl := Option.some.inj he
    exact .packageWrite hw
  | packageExit w ok err =>
    obtain ⟨hw, he⟩ := Option.ite_none_right_eq_some.mp h
    obtain rfl := Option.some.inj he
    exact .packageExit hw
  | exportWrite w f =>
    obtain ⟨hw, he⟩ := Option.ite_none_right_eq_some.mp h
    obtain rfl := Option.some.inj he
    exact .exportWrite hw
  | exportExit w ok err =>
    obtain ⟨hw, he⟩ := Option.ite_none_right_eq_some.mp h
    obtain rfl := Option.some.inj he
    exact .exportExit hw
  | restart =>
    obtain rfl := Option.some.inj h
    exact .restart

theorem mem_of_enqueue {q : List Event} {e e' : Event} (h : e ∈ q ++ [e']) (hne : e ≠ e') :
    e ∈ q := by
  rcases List.mem_append.mp h with h | h
  · exact h
  · exact absurd (List.mem_singleton.mp h) hne

/-- Only a slot makes calls. -/
theorem called_of_step {cfg : Config} {a : Action} {m m' : Machine} {c : Call}
    (h : step cfg a m = some m') (hc : c ∈ m'.calls) : ∃ env e q, a = .handle env ∧
      m.queue = e :: q ∧ Dispatched cfg env (m.popped env q) m' e ∧
      Called cfg env (m.popped env q) e c := by
  cases stepped h with
  | @handle env e q m' hq hclock hs => exact ⟨env, e, q, rfl, hq, hs, called hs rfl hc⟩
  | post | access | requestExport | dropExport | downloadWrite | downloadExit | packageWrite
  | packageExit | exportWrite | exportExit | restart => cases hc

end VisionPlayback.Machine
