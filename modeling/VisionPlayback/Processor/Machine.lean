import VisionPlayback.Lib.Transition
import VisionPlayback.Processor.Handlers

/-!
# The processor thread and its workers as a transition system

Any signal of the listener may be queued at any time. The thread handles the
event at the head of its queue, and the steady clock it reads does not go back.
Each running worker may write its output and, once, end and post its completion.
A restart stops every worker and keeps the downloads directory, the temporary
exports apart.
-/

namespace VisionPlayback

open Lib

namespace Machine

inductive Action
  /-- The listener emits `playbackRequested`; its keys are digests cut to 16 digits. -/
  | post (request : PlaybackRequest)
  | access (keyHex : String)
  | requestExport (requestId : Nat) (keyHex : String) (startSec endSec : Int)
  /-- The listener deletes a temporary export; the removal is taken to succeed. -/
  | dropExport (path : String)
  /-- The processor thread handles the event at the head of its queue. -/
  | handle (env : Env)
  | downloadWrite (w : Downloader) (f : File)
  | downloadExit (w : Downloader) (ok : Bool) (err : String)
  | packageWrite (w : Packager) (p : PackageDir)
  | packageExit (w : Packager) (ok : Bool) (err : String)
  | exportWrite (w : ClipExport) (f : File)
  | exportExit (w : ClipExport) (ok : Bool) (err : String)
  | restart

def enqueue (e : Event) (m : Machine) : Machine := { m with queue := m.queue ++ [e] }

/-- A fresh process over the same downloads directory; the constructor clears
the temporary exports. Workers still running are cut off. -/
def restart (m : Machine) : Machine :=
  { disk := { m.disk with exports := ∅ }
    nextWorker := m.nextWorker
    steadyNow := m.steadyNow
    lastDownload := fun k =>
      if ∃ w ∈ m.downloaders, w.request.key = k then some .interrupted else m.lastDownload k
    lastPackage := fun k =>
      if ∃ w ∈ m.packagers, w.key = k then some .interrupted else m.lastPackage k }

def act (cfg : Config) : Action → Machine → Option Machine
  | .post request, m =>
    if isHex16 request.key.hex then some (m.enqueue (.playbackRequested request)) else none
  | .access keyHex, m => some (m.enqueue (.keyAccessed keyHex))
  | .requestExport requestId keyHex startSec endSec, m =>
    some { m.enqueue (.exportRequested requestId keyHex startSec endSec) with
      requestIds := requestId :: m.requestIds }
  | .dropExport path, m =>
    some { m with disk := { m.disk with exports := m.disk.exports.erase path } }
  | .handle env, m =>
    match m.queue with
    | [] => none
    | e :: queue =>
      if m.steadyNow ≤ env.login.sweepNow ∧ env.login.sweepNow ≤ env.login.now then
        some (dispatch cfg env e { m with queue, steadyNow := env.login.now })
      else none
  | .downloadWrite w f, m =>
    if w ∈ m.downloaders then
      some { m with disk := { m.disk with raw := m.disk.raw.insert w.outputPath f } }
    else none
  | .downloadExit w ok err, m =>
    if w ∈ m.downloaders then
      some { m.enqueue (.downloadFinished w.id w.request.key ok err) with
        downloaders := m.downloaders.erase w
        lastDownload := Function.update m.lastDownload w.request.key (some (.ended ok)) }
    else none
  | .packageWrite w p, m =>
    if w ∈ m.packagers then
      some { m with disk := { m.disk with dirs := m.disk.dirs.insert w.outputDir p } }
    else none
  | .packageExit w ok err, m =>
    if w ∈ m.packagers then
      some { m.enqueue (.packageFinished w.id w.key ok err) with
        packagers := m.packagers.erase w
        lastPackage := Function.update m.lastPackage w.key (some (.ended ok)) }
    else none
  | .exportWrite w f, m =>
    if w ∈ m.exporters then
      some { m with disk := { m.disk with exports := m.disk.exports.insert w.outputPath ⟨f, w⟩ } }
    else none
  | .exportExit w ok err, m =>
    if w ∈ m.exporters then
      some { m.enqueue (.exportDone w.requestId ok (if ok then w.outputPath else "")
          (if ok then "" else err)) with
        exporters := m.exporters.erase w }
    else none
  | .restart, m => some m.restart

def step (cfg : Config) (a : Action) (m : Machine) : Option Machine :=
  act cfg a { m with calls := [] }

def system (cfg : Config) : System Machine Action := ⟨step cfg⟩

/-- A fresh process over a given downloads directory. -/
def start (d : Disk) : Machine := { disk := { d with exports := ∅ } }

/-! ## A camera to try runs with -/

namespace Sample

def request (hex : String) : PlaybackRequest where
  credentials := { ip := "10.0.0.1", user := "admin", pass := "" }
  channel := {}
  range := ⟨{ year := 2024 }, { year := 2024, second := 9 }⟩
  key := ⟨hex⟩

/-- The clock stands still, the camera hands out one session, and removals work. -/
def env : Env where
  nowMs := 0
  login := { sweepNow := 0, now := 0, login := fun _ => 7 }
  evict := { sort := SortBy.insertion _, remove := fun _ => .done }
  mkdirTime := 0

/-- The shortest manifest that passes for complete: a hundred bytes. -/
def manifest : File := { content := utf8 "<?xml" ++ List.replicate 95 32 }

def package (lastModified : Int) : PackageDir :=
  { files := AList.insert "manifest.mpd" manifest ∅, lastModified }

def config : Config := { loginIdle := 300, maxDownloadsBytes := 0, hostBase := "http://nvr" }

def smallConfig : Config := { config with maxDownloadsBytes := 50 }

def downloader (id : Nat) (hex : String) : Downloader :=
  ⟨id, { request hex with token := 7 }, StreamCache.mp4Path ⟨hex⟩⟩

def packager (id : Nat) (hex : String) : Packager :=
  ⟨id, ⟨hex⟩, StreamCache.mp4Path ⟨hex⟩, StreamCache.dashDir ⟨hex⟩⟩

end Sample

end Machine

end VisionPlayback
