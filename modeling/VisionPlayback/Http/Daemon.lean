import VisionPlayback.Http.Listener
import VisionPlayback.Lib.Replica
import VisionPlayback.Processor.Slots

/-!
# The listener and the processor together

Two threads with a queue each way. What the listener emits goes to the queue of
the processor, into which workers post as well; what a slot of the processor
emits goes, in order, to the queue of the listener. A daemon runs until its
process ends, so there is no restart here. GET requests for a status change
nothing and are not steps.
-/

namespace VisionPlayback

open Lib

/-- A deferred download. -/
structure Accepted where
  responder : Nat
  requestId : Nat
  request : ExportRequest
  deriving DecidableEq

/-- A response written to a deferred responder; `source` is the file on disk at
the path it was asked to send. -/
structure Reply where
  responder : Nat
  response : Response
  path : String
  source : Option ExportFile
  deriving DecidableEq

structure Daemon where
  listener : Listener := {}
  machine : Machine
  /-- Signals on their way to the listener. -/
  toHttp : List Signal := []
  nextResponder : Nat := 0
  /-- History, as are the fields after it: no step reads them. -/
  accepted : List Accepted := []
  replies : List Reply := []
  /-- The ids that a POST was answered with. -/
  acked : List String := []
  /-- The ids whose status messages were delivered. -/
  heard : List String := []
  /-- The keys that were announced as ready to the listener, then lost their
  package to a pass for another key, and have not been packaged since. -/
  evicted : List String := []

structure DaemonConfig where
  http : Listener.Config
  processor : Config

/-- The signal a call emits. -/
def Call.signal? : Call → Option Signal
  | .emit s => some s
  | _ => none

namespace Machine

/-- What the slot that ran last has emitted. -/
def emits (m : Machine) : List Signal := m.calls.filterMap (·.signal?)

/-- The steps that the processor thread and its workers take by themselves. -/
def Action.internal : Action → Bool
  | .handle _ | .downloadWrite _ _ | .downloadExit _ _ _ | .packageWrite _ _ | .packageExit _ _ _
  | .exportWrite _ _ | .exportExit _ _ _ => true
  | .post _ | .access _ | .requestExport _ _ _ _ | .dropExport _ | .restart => false

/-- The key whose completion the next slot is for. -/
def finishing (m : Machine) : Option String :=
  match m.queue with
  | .packageFinished _ key _ _ :: _ => some key.hex
  | _ => none

/-- The packages that the slot after `pre` removed on behalf of another key. -/
def removedForAnother (pre post : Machine) : List String :=
  post.calls.filterMap fun c =>
    match c with
    | .removed hex => if pre.finishing = some hex then none else some hex
    | _ => none

/-- A packaging run of the key ends with success. -/
def Action.packages (hex : String) : Action → Bool
  | .packageExit w ok _ => w.key.hex = hex && ok
  | _ => false

end Machine

namespace Daemon

inductive Action
  | playbackPost (providedKey : Bytes) (body : Option (Table String JsonValue))
  | dashGet (dir name : String)
  | downloadGet (hash : String) (start stop : QueryItem)
  /-- The listener's thread handles the oldest signal. -/
  | deliver
  | work (a : Machine.Action)

/-- A step of the processor thread or of a worker. -/
def Action.works : Action → Bool
  | .work _ => true
  | .playbackPost _ _ | .dashGet _ _ | .downloadGet _ _ _ | .deliver => false

/-- The file that was served or found missing is removed. -/
def dropExport (cfg : DaemonConfig) (path : Option String) (m : Machine) : Machine :=
  match path with
  | none => m
  | some path => (Machine.step cfg.processor (.dropExport path) m).getD m

def deliver (cfg : DaemonConfig) (s : Signal) (d : Daemon) : Daemon :=
  match s with
  | .statusChanged keyHex status url =>
    { d with
      listener := d.listener.onStatusChanged keyHex status url
      heard := keyHex :: d.heard }
  | .exportFinished requestId outputPath ok error =>
    let (listener, reply, path) :=
      d.listener.onExportFinished requestId outputPath ok error d.machine.disk
    { d with
      listener
      machine := dropExport cfg path d.machine
      replies := (reply.map fun r =>
        ⟨r.1, r.2, outputPath, d.machine.disk.exports.lookup outputPath⟩).toList ++ d.replies }

def step (cfg : DaemonConfig) : Action → Daemon → Option Daemon
  | .playbackPost providedKey body, d =>
    match (Listener.handlePlaybackPost cfg.http providedKey body).2 with
    | none => some d
    | some request => (Machine.step cfg.processor (.post request) d.machine).map fun machine =>
        { d with machine, acked := request.key.hex :: d.acked }
  | .dashGet dir _, d =>
    (Machine.step cfg.processor (.access dir) d.machine).map fun machine => { d with machine }
  | .downloadGet hash start stop, d =>
    match Listener.checkDownload hash start stop with
    | .error _ => some d
    | .ok (request, filename) =>
      let id := d.listener.freshExportId
      (Machine.step cfg.processor (.requestExport id request.hash request.startSec request.endSec)
        d.machine).map fun machine =>
          { d with
            machine
            listener := d.listener.deferExport d.nextResponder filename
            nextResponder := d.nextResponder + 1
            accepted := ⟨d.nextResponder, id, request⟩ :: d.accepted }
  | .deliver, d =>
    match d.toHttp with
    | [] => none
    | s :: q => some (deliver cfg s { d with toHttp := q })
  | .work a, d =>
    if a.internal then
      (Machine.step cfg.processor a d.machine).map fun machine =>
        { d with
          machine
          toHttp := d.toHttp ++ machine.emits
          evicted :=
            (d.evicted.filter fun hex => !a.packages hex) ++
              (Machine.removedForAnother d.machine machine).filter fun hex =>
                decide (hex ∈ d.listener.mpdUrlCache) }
    else none

def system (cfg : DaemonConfig) : System Daemon Action := ⟨step cfg⟩

/-- A fresh daemon over a given downloads directory. -/
def start (disk : Disk) : Daemon := { machine := Machine.start disk }

/-- A POST that passes its checks is never held up. -/
theorem post_enabled {cfg : DaemonConfig} {providedKey : Bytes}
    {body : Option (Table String JsonValue)} {request : PlaybackRequest}
    (h : (Listener.handlePlaybackPost cfg.http providedKey body).2 = some request) (m : Machine) :
    (Machine.step cfg.processor (.post request) m).isSome = true := by
  have hhex : isHex16 request.key.hex = true := by
    unfold Listener.handlePlaybackPost at h
    split at h
    · cases h
    · cases hp : Listener.parsePlaybackPostBody body with
      | error missingField => rw [hp] at h; cases h
      | ok parsed =>
        rw [hp] at h
        obtain rfl := Option.some.inj h
        exact isHex16_makePlaybackKey _ _ _ _
  simp [Machine.step, Machine.act, hhex]

/-! ## What each step can do -/

inductive Stepped (cfg : DaemonConfig) (d : Daemon) : Action → Daemon → Prop
  | postRejected {providedKey : Bytes} {body : Option (Table String JsonValue)} :
      Stepped cfg d (.playbackPost providedKey body) d
  | posted {providedKey : Bytes} {body : Option (Table String JsonValue)}
      {request : PlaybackRequest} {machine : Machine}
      (hpost : (Listener.handlePlaybackPost cfg.http providedKey body).2 = some request)
      (hs : Machine.step cfg.processor (.post request) d.machine = some machine) :
      Stepped cfg d (.playbackPost providedKey body)
        { d with machine, acked := request.key.hex :: d.acked }
  | dashGet {dir name : String} {machine : Machine}
      (hs : Machine.step cfg.processor (.access dir) d.machine = some machine) :
      Stepped cfg d (.dashGet dir name) { d with machine }
  | downloadRejected {hash : String} {start stop : QueryItem} :
      Stepped cfg d (.downloadGet hash start stop) d
  | accepted {hash filename : String} {start stop : QueryItem} {request : ExportRequest}
      {machine : Machine}
      (hcheck : Listener.checkDownload hash start stop = .ok (request, filename))
      (hs : Machine.step cfg.processor (.requestExport d.listener.freshExportId request.hash
        request.startSec request.endSec) d.machine = some machine) :
      Stepped cfg d (.downloadGet hash start stop)
        { d with
          machine
          listener := d.listener.deferExport d.nextResponder filename
          nextResponder := d.nextResponder + 1
          accepted := ⟨d.nextResponder, d.listener.freshExportId, request⟩ :: d.accepted }
  | heard {keyHex url : String} {status : StreamStatus} {q : List Signal}
      (hq : d.toHttp = .statusChanged keyHex status url :: q) :
      Stepped cfg d .deliver
        { d with
          listener := d.listener.onStatusChanged keyHex status url
          toHttp := q
          heard := keyHex :: d.heard }
  | unmatched {requestId : Nat} {outputPath error : String} {ok : Bool} {q : List Signal}
      (hq : d.toHttp = .exportFinished requestId outputPath ok error :: q)
      (hp : d.listener.pendingExports.lookup requestId = none) :
      Stepped cfg d .deliver { d with toHttp := q }
  | answered {requestId : Nat} {outputPath error : String} {ok : Bool} {q : List Signal}
      {p : PendingExport} {machine : Machine}
      (hq : d.toHttp = .exportFinished requestId outputPath ok error :: q)
      (hp : d.listener.pendingExports.lookup requestId = some p)
      (hm : machine = dropExport cfg (if ok then some outputPath else none) d.machine) :
      Stepped cfg d .deliver
        { d with
          listener := { d.listener with
            pendingExports := d.listener.pendingExports.erase requestId }
          machine
          toHttp := q
          replies := ⟨p.responder,
            Listener.exportResponse outputPath ok error p.filename d.machine.disk, outputPath,
            d.machine.disk.exports.lookup outputPath⟩ :: d.replies }
  | worked {a : Machine.Action} {machine : Machine} (ha : a.internal = true)
      (hs : Machine.step cfg.processor a d.machine = some machine) :
      Stepped cfg d (.work a)
        { d with
          machine
          toHttp := d.toHttp ++ machine.emits
          evicted :=
            (d.evicted.filter fun hex => !a.packages hex) ++
              (Machine.removedForAnother d.machine machine).filter fun hex =>
                decide (hex ∈ d.listener.mpdUrlCache) }

theorem stepped {cfg : DaemonConfig} {a : Action} {d d' : Daemon} (h : step cfg a d = some d') :
    Stepped cfg d a d' := by
  cases a with
  | playbackPost providedKey body =>
    simp only [step] at h
    cases hpost : (Listener.handlePlaybackPost cfg.http providedKey body).2 with
    | none =>
      rw [hpost] at h
      obtain rfl := Option.some.inj h
      exact .postRejected
    | some request =>
      rw [hpost] at h
      obtain ⟨machine, hs, rfl⟩ := Option.map_eq_some_iff.mp h
      exact .posted hpost hs
  | dashGet dir name =>
    simp only [step] at h
    obtain ⟨machine, hs, rfl⟩ := Option.map_eq_some_iff.mp h
    exact .dashGet hs
  | downloadGet hash start stop =>
    simp only [step] at h
    cases hcheck : Listener.checkDownload hash start stop with
    | error response =>
      rw [hcheck] at h
      obtain rfl := Option.some.inj h
      exact .downloadRejected
    | ok r =>
      rw [hcheck] at h
      obtain ⟨machine, hs, rfl⟩ := Option.map_eq_some_iff.mp h
      exact .accepted hcheck hs
  | deliver =>
    simp only [step] at h
    cases hq : d.toHttp with
    | nil => rw [hq] at h; cases h
    | cons s q =>
      rw [hq] at h
      obtain rfl := Option.some.inj h
      cases s with
      | statusChanged keyHex status url => exact .heard hq
      | exportFinished requestId outputPath ok error =>
        simp only [deliver, Listener.onExportFinished]
        cases hp : d.listener.pendingExports.lookup requestId with
        | none => exact .unmatched hq hp
        | some p => exact .answered hq hp rfl
  | work a =>
    obtain ⟨ha, he⟩ := Option.ite_none_right_eq_some.mp h
    obtain ⟨machine, hs, rfl⟩ := Option.map_eq_some_iff.mp he
    exact .worked ha hs

/-- Removing a temporary file is a step of the processor's world. -/
theorem step_of_dropExport {cfg : DaemonConfig} {path : Option String} {m m' : Machine}
    (h : m' = dropExport cfg path m) :
    m' = m ∨ ∃ p, Machine.step cfg.processor (.dropExport p) m = some m' := by
  obtain rfl := h
  cases path with
  | none => exact Or.inl rfl
  | some p => exact Or.inr ⟨p, rfl⟩

/-- What the listener does by itself touches the processor's world only from outside. -/
theorem machine_quiet {cfg : DaemonConfig} {a : Action} {d d' : Daemon}
    (h : step cfg a d = some d') (ha : a.works = false) : d'.machine = d.machine ∨
      ∃ b : Machine.Action, b.internal = false ∧ b ≠ .restart ∧
        Machine.step cfg.processor b d.machine = some d'.machine := by
  cases stepped h with
  | postRejected | downloadRejected | heard | unmatched => exact Or.inl rfl
  | @posted _ _ request _ hpost hs => exact Or.inr ⟨.post request, rfl, nofun, hs⟩
  | @dashGet dir _ _ hs => exact Or.inr ⟨.access dir, rfl, nofun, hs⟩
  | @accepted _ _ _ _ request _ hcheck hs =>
    exact Or.inr ⟨.requestExport _ request.hash request.startSec request.endSec, rfl, nofun, hs⟩
  | answered hq hp hm =>
    rcases step_of_dropExport hm with he | ⟨p, hs⟩
    · exact Or.inl he
    · exact Or.inr ⟨.dropExport p, rfl, nofun, hs⟩
  | worked => cases ha

theorem machine_work {cfg : DaemonConfig} {b : Machine.Action} {d d' : Daemon}
    (h : step cfg (.work b) d = some d') :
    b.internal = true ∧ Machine.step cfg.processor b d.machine = some d'.machine := by
  cases stepped h with
  | worked hb hs => exact ⟨hb, hs⟩

/-- Every step of the daemon is a step of the processor's world, or none. -/
theorem machine_step {cfg : DaemonConfig} {a : Action} {d d' : Daemon}
    (h : step cfg a d = some d') : d'.machine = d.machine ∨
      ∃ b : Machine.Action, b ≠ .restart ∧
        Machine.step cfg.processor b d.machine = some d'.machine := by
  cases a with
  | work b =>
    obtain ⟨hb, hs⟩ := machine_work h
    refine Or.inr ⟨b, fun he => ?_, hs⟩
    rw [he] at hb
    cases hb
  | playbackPost | dashGet | downloadGet | deliver =>
    exact (machine_quiet h rfl).imp_right fun ⟨b, _, hb, hs⟩ => ⟨b, hb, hs⟩

theorem simulates (cfg : DaemonConfig) :
    (system cfg).Simulates (Machine.system cfg.processor) (·.machine) := by
  intro a d d' h
  exact (machine_step h).imp_right fun ⟨b, _, hs⟩ => ⟨b, hs⟩

theorem machine_reachable {cfg : DaemonConfig} {disk : Disk} {d : Daemon}
    (h : (system cfg).Reachable (start disk) d) :
    (Machine.system cfg.processor).Reachable (Machine.start disk) d.machine :=
  (simulates cfg).reachable h

/-! ## A daemon to try runs with -/

namespace Sample

def config : DaemonConfig where
  http := {
    expectedKey := utf8 "key"
    hostBase := "http://nvr"
    hasher := {
      hexDigest := fun _ => "00000000000000aa"
      digits := fun _ => by decide
      long := fun _ => by decide } }
  processor := Machine.Sample.config

def body : Table String JsonValue :=
  AList.insert "ip" (.string "10.0.0.1") <| AList.insert "port" (.number 8000) <|
    AList.insert "user" (.string "admin") <| AList.insert "pass" (.string "") <|
    AList.insert "channel_id" (.number 1) <| AList.insert "start_time" (.string "20240101T000000") <|
    AList.insert "end_time" (.string "20240101T000009") ∅

def post : Action := .playbackPost (utf8 "key") (some body)

def range : TimeRange :=
  ⟨{ year := 2024, month := 1, day := 1 }, { year := 2024, month := 1, day := 1, second := 9 }⟩

/-- The download that the request leads to. -/
def recorder : Downloader where
  id := 0
  request := { Machine.Sample.request "00000000000000aa" with token := 7, range }
  outputPath := "00000000000000aa.mp4"

/-- A hash that tells two cameras apart. -/
def cameraDigest (text : String) : String :=
  if "10.0.0.1:".toList.isPrefixOf text.toList then "00000000000000aa" else "00000000000000bb"

theorem cameraDigest_eq (text : String) :
    cameraDigest text = "00000000000000aa" ∨ cameraDigest text = "00000000000000bb" := by
  unfold cameraDigest
  split
  · exact Or.inl rfl
  · exact Or.inr rfl

def twoCameras : DaemonConfig where
  http := {
    expectedKey := utf8 "key"
    hostBase := "http://nvr"
    hasher := {
      hexDigest := cameraDigest
      digits := fun text => by rcases cameraDigest_eq text with h | h <;> rw [h] <;> decide
      long := fun text => by rcases cameraDigest_eq text with h | h <;> rw [h] <;> decide } }
  processor := Machine.Sample.config

/-- The recording of the second camera. -/
def otherPost : Action := .playbackPost (utf8 "key") (some (body.insert "ip" (.string "10.0.0.2")))

end Sample

end Daemon

end VisionPlayback
