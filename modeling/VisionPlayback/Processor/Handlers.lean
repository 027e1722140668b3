import VisionPlayback.Lib.Chronicle
import VisionPlayback.Login
import VisionPlayback.StreamCache

/-!
# The playback processor

The members of the processor, the workers it has started, its event queue and
the disk, with one function for each slot. Worker objects are named by numbers
that are never used twice. A slot runs to its end without another slot in
between, and what it calls is listed in `calls` in order. Console output is left
out.
-/

namespace VisionPlayback

open Lib

inductive JobState
  | pending | downloading | packaging
  deriving DecidableEq

/-- `downloader` and `packager` name the worker objects the job owns. -/
structure Job where
  key : PlaybackKey
  channel : Channel
  state : JobState := .pending
  downloader : Option Nat := none
  packager : Option Nat := none
  deriving DecidableEq

structure Export where
  exporter : ClipExport
  key : PlaybackKey
  deriving DecidableEq

/-- A started download thread. -/
structure Downloader where
  id : Nat
  request : PlaybackRequest
  outputPath : String
  deriving DecidableEq

/-- A started packaging process. -/
structure Packager where
  id : Nat
  key : PlaybackKey
  mp4Path : String
  outputDir : String
  deriving DecidableEq

/-- Signals to the HTTP listener. -/
inductive Signal
  | statusChanged (keyHex : String) (status : StreamStatus) (url : String)
  | exportFinished (requestId : Nat) (outputPath : String) (ok : Bool) (error : String)
  deriving DecidableEq

/-- Events queued for the processor thread: signals of the listener, and the
completions that workers post. A completion names the worker that posted it;
the slots see only its key. -/
inductive Event
  | playbackRequested (request : PlaybackRequest)
  | keyAccessed (keyHex : String)
  | exportRequested (requestId : Nat) (keyHex : String) (startSec endSec : Int)
  | downloadFinished (worker : Nat) (key : PlaybackKey) (success : Bool) (err : String)
  | packageFinished (worker : Nat) (key : PlaybackKey) (success : Bool) (err : String)
  | exportDone (requestId : Nat) (ok : Bool) (outputPath err : String)
  deriving DecidableEq

/-- What a slot does to its surroundings. -/
inductive Call
  | emit (s : Signal)
  | auth (c : AuthCall)
  | emplaceJob (key : PlaybackKey) (inserted : Bool)
  | startDownload (w : Downloader)
  | package (w : Packager)
  | exportClip (w : ClipExport)
  | removed (hex : String)
  deriving DecidableEq

structure Config where
  loginIdle : Int
  maxDownloadsBytes : UInt64
  hostBase : String

/-- What one slot reads of its surroundings. -/
structure Env where
  /-- `QDateTime::currentMSecsSinceEpoch`. -/
  nowMs : Int
  login : LoginUseCase.Env
  evict : StreamCache.EvictEnv
  /-- The time stamp of a directory made by `mkpath`. -/
  mkdirTime : Int

structure Machine where
  activeJobs : Table PlaybackKey Job := ∅
  exports : Table Nat Export := ∅
  exportingRefcount : Table String Int := ∅
  lastAccessMs : Table String Int := ∅
  loginCache : LoginUseCase.Cache := ∅
  queue : List Event := []
  downloaders : List Downloader := []
  packagers : List Packager := []
  exporters : List ClipExport := []
  disk : Disk := {}
  nextWorker : Nat := 0
  /-- The latest reading of the steady clock. -/
  steadyNow : Int := 0
  /-- The calls of the slot that ran last. -/
  calls : List Call := []
  /-- History, as are the two fields after it: no slot reads them. -/
  lastDownload : PlaybackKey → Option Outcome := fun _ => none
  lastPackage : PlaybackKey → Option Outcome := fun _ => none
  requestIds : List Nat := []

namespace Machine

def kAccessTtlMs : Int := 60000

def call (c : Call) (m : Machine) : Machine := { m with calls := m.calls ++ [c] }

def statusChanged (key : PlaybackKey) (status : StreamStatus) (url : String) (m : Machine) :
    Machine :=
  m.call (.emit (.statusChanged key.hex status url))

/-- `m_activeJobs.emplace`. -/
def emplaceJob (key : PlaybackKey) (job : Job) (m : Machine) : Machine :=
  let (jobs, inserted) := Table.emplace key job m.activeJobs
  { m with activeJobs := jobs }.call (.emplaceJob key inserted)

def ensureLoggedIn (cfg : Config) (env : Env) (credentials : Credentials) (m : Machine) :
    SessionToken × Machine :=
  let (token, cache, calls) :=
    LoginUseCase.ensureLoggedIn cfg.loginIdle env.login credentials m.loginCache
  (token, { m with loginCache := cache, calls := m.calls ++ calls.map .auth })

/-- Creates a packager, hands it to the job and starts it; `package()` makes the
output directory before it starts the process. -/
def launchPackager (env : Env) (key : PlaybackKey) (job : Job) (m : Machine) : Machine :=
  let w : Packager := ⟨m.nextWorker, key, StreamCache.mp4Path key, StreamCache.dashDir key⟩
  { m with
    nextWorker := m.nextWorker + 1
    activeJobs := m.activeJobs.insert key { job with state := .packaging, packager := some w.id }
    disk := StreamCache.mkpath w.outputDir env.mkdirTime m.disk
    packagers := m.packagers ++ [w]
    lastPackage := Function.update m.lastPackage key (some .running)
    calls := m.calls ++ [.emit (.statusChanged key.hex .packaging ""), .package w] }

def startPackage (env : Env) (key : PlaybackKey) (m : Machine) : Machine :=
  match m.activeJobs.lookup key with
  | none => m
  | some job => m.launchPackager env key job

def startDownload (request : PlaybackRequest) (m : Machine) : Machine :=
  let key := request.key
  let w : Downloader := ⟨m.nextWorker, request, StreamCache.mp4Path key⟩
  let m := m.emplaceJob key
    { key, channel := request.channel, state := .downloading, downloader := some w.id }
  { m with
    nextWorker := m.nextWorker + 1
    downloaders := m.downloaders ++ [w]
    lastDownload := Function.update m.lastDownload key (some .running)
    calls := m.calls ++ [.emit (.statusChanged key.hex .downloading ""), .startDownload w] }

def onPlaybackRequested (cfg : Config) (env : Env) (request : PlaybackRequest) (m : Machine) :
    Machine :=
  let key := request.key
  if StreamCache.dashExists key m.disk then
    m.statusChanged key .ready (StreamCache.mpdUrl key cfg.hostBase)
  else if key ∈ m.activeJobs then m
  else
    let (token, m) := m.ensureLoggedIn cfg env request.credentials
    if token < 0 then m.statusChanged key .failed ""
    else
      let request := { request with token := token }
      if StreamCache.mp4Exists key m.disk then
        let m := m.emplaceJob key { key, channel := request.channel, state := .pending }
        let m := m.statusChanged key .pending ""
        m.startPackage env key
      else m.startDownload request

def onKeyAccessed (env : Env) (keyHex : String) (m : Machine) : Machine :=
  { m with lastAccessMs := m.lastAccessMs.insert keyHex env.nowMs }

def onDownloadFinished (env : Env) (key : PlaybackKey) (success : Bool) (m : Machine) :
    Machine :=
  match m.activeJobs.lookup key with
  | none => m
  | some job =>
    if !success then
      { m with activeJobs := m.activeJobs.erase key }.statusChanged key .failed ""
    else
      let m := { m with
        activeJobs := m.activeJobs.insert key
          { job with state := .packaging, downloader := none } }
      m.startPackage env key

def recentlyAccessed (nowMs : Int) (_ : String) (accessMs : Int) : Bool :=
  nowMs - accessMs ≤ kAccessTtlMs

/-- The keys an eviction pass must leave alone: active jobs, keys accessed within
the window, and keys that an export reads. -/
def skipKeys (env : Env) (m : Machine) : List PlaybackKey :=
  m.activeJobs.keys ++
    (Table.retain (recentlyAccessed env.nowMs) m.lastAccessMs).keys.map (⟨·⟩) ++
    m.exportingRefcount.keys.map (⟨·⟩)

/-- Prunes the access times and runs the eviction pass. -/
def evict (cfg : Config) (env : Env) (m : Machine) : Machine :=
  let skip := m.skipKeys env
  let (disk, removed) :=
    StreamCache.evictToCapacity cfg.maxDownloadsBytes env.evict skip m.disk
  { m with
    lastAccessMs := Table.retain (recentlyAccessed env.nowMs) m.lastAccessMs
    disk := disk
    calls := m.calls ++ removed.map .removed }

def onPackageFinished (cfg : Config) (env : Env) (key : PlaybackKey) (success : Bool)
    (m : Machine) : Machine :=
  match m.activeJobs.lookup key with
  | none => m
  | some _ =>
    let m := { m with activeJobs := m.activeJobs.erase key }
    if !success then m.statusChanged key .failed ""
    else
      let m := { m with disk := StreamCache.deleteMp4 key m.disk }
      let m := m.evict cfg env
      m.statusChanged key .ready (StreamCache.mpdUrl key cfg.hostBase)

/-- The temporary file of an export. -/
def exportPath (requestId : Nat) : String := ".exports/" ++ toString requestId ++ ".mp4"

def manifestPath (key : PlaybackKey) : String := StreamCache.dashDir key ++ "/manifest.mpd"

def onExportRequested (requestId : Nat) (keyHex : String) (startSec endSec : Int) (m : Machine) :
    Machine :=
  let key : PlaybackKey := ⟨keyHex⟩
  if !StreamCache.dashExists key m.disk then
    m.call (.emit (.exportFinished requestId "" false "not ready"))
  else
    let w : ClipExport := ⟨requestId, manifestPath key, exportPath requestId, startSec, endSec⟩
    let count := (m.exportingRefcount.lookup key.hex).getD 0
    { m with
      exports := (Table.emplace requestId (Export.mk w key) m.exports).1
      exportingRefcount := m.exportingRefcount.insert key.hex (count + 1)
      exporters := m.exporters ++ [w] }.call (.exportClip w)

/-- `--count`, and the entry goes once it is not positive. -/
def releaseRefcount (hex : String) (t : Table String Int) : Table String Int :=
  match t.lookup hex with
  | none => t
  | some count => if count - 1 ≤ 0 then t.erase hex else t.insert hex (count - 1)

def onExportDone (requestId : Nat) (ok : Bool) (outputPath err : String) (m : Machine) :
    Machine :=
  match m.exports.lookup requestId with
  | none => m
  | some e =>
    { m with
      exportingRefcount := releaseRefcount e.key.hex m.exportingRefcount
      exports := m.exports.erase requestId }.call
        (.emit (.exportFinished requestId outputPath ok err))

/-- The slot an event is for. -/
def dispatch (cfg : Config) (env : Env) (e : Event) (m : Machine) : Machine :=
  match e with
  | .playbackRequested request => m.onPlaybackRequested cfg env request
  | .keyAccessed keyHex => m.onKeyAccessed env keyHex
  | .exportRequested requestId keyHex startSec endSec =>
    m.onExportRequested requestId keyHex startSec endSec
  | .downloadFinished _ key success _ => m.onDownloadFinished env key success
  | .packageFinished _ key success _ => m.onPackageFinished cfg env key success
  | .exportDone requestId ok outputPath err => m.onExportDone requestId ok outputPath err

end Machine

end VisionPlayback
