import VisionPlayback.Ffmpeg
import VisionPlayback.Lib.Latch
import VisionPlayback.Processor.Machine

/-!
# The ffmpeg processes and their wrappers

The packager and the exporter each own one `QProcess` and turn its signals into a
call of `onFinished`. The two classes are transcribed one by one. What reaches a
wrapper after the start of its process is a sequence of events: the signals, in the
order Qt delivers them, with the calls of `cancel` among them; those that a `cancel`
waits for come after it.
-/

namespace VisionPlayback

open Lib

/-- `QProcess::ExitStatus`. -/
inductive ExitStatus
  | normalExit | crashExit
  deriving DecidableEq

/-- `QProcess::ProcessError`. -/
inductive ProcessError
  | failedToStart | crashed | timedout | writeError | readError | unknownError
  deriving DecidableEq

structure QProcess where
  program : String
  arguments : List String
  deriving DecidableEq

inductive ProcessEvent
  | errorOccurred (error : ProcessError)
  /-- With what there is to read on the standard error. -/
  | finished (exitCode : Int32) (exitStatus : ExitStatus) (standardError : String)
  /-- `running`: the state of the process is not `NotRunning`. -/
  | cancel (running : Bool)
  deriving DecidableEq

/-- What a wrapper does to its process and to its owner. -/
inductive WrapperCall
  | kill
  | waitForFinished (msecs : Nat)
  | deleteLater
  | onFinished (success : Bool) (path errorMessage : String)
  deriving DecidableEq

/-! ## FfmpegDashPackager -/

/-- `onFinished` tells whether the callback is set. -/
structure FfmpegDashPackager where
  process : Option QProcess := none
  mpdPath : String := ""
  completed : Bool := false
  onFinished : Bool := false
  /-- In the order they were made. -/
  calls : List WrapperCall := []
  deriving DecidableEq

namespace FfmpegDashPackager

/-- `videoCodec` and `audioCodec` are what the probes of the source answer, `""` when
there is no such stream or the probe fails. -/
def arguments (mp4Path mpdPath videoCodec audioCodec : String) : List String :=
  ["-y", "-i", mp4Path] ++
    (if videoCodec = "h264" then ["-c:v", "copy"]
      else ["-c:v", "libx264", "-preset", "veryfast", "-crf", "23", "-profile:v", "high",
        "-pix_fmt", "yuv420p", "-force_key_frames", "expr:gte(t,n_forced*4)"]) ++
    (if audioCodec = "" then ["-an"]
      else if audioCodec = "aac" then ["-c:a", "copy"]
      else ["-c:a", "aac", "-b:a", "128k"]) ++
    ["-f", "dash", "-seg_duration", "4", "-init_seg_name", "init-stream$RepresentationID$.m4s",
      "-media_seg_name", "chunk-stream$RepresentationID$-$Number%05d$.m4s", mpdPath]

/-- The start of the process is not a signal yet, even when it fails. -/
def package (mp4Path outputDir videoCodec audioCodec : String) (p : FfmpegDashPackager) :
    FfmpegDashPackager :=
  let mpdPath := outputDir ++ "/manifest.mpd"
  { p with
    mpdPath
    completed := false
    process := some ⟨"ffmpeg", arguments mp4Path mpdPath videoCodec audioCodec⟩ }

def complete (success : Bool) (mpdPath errorMessage : String) (p : FfmpegDashPackager) :
    FfmpegDashPackager :=
  if p.completed then p
  else
    let p := { p with completed := true }
    let p := if p.onFinished then
        { p with calls := p.calls ++ [.onFinished success mpdPath errorMessage] }
      else p
    match p.process with
    | some _ => { p with calls := p.calls ++ [.deleteLater], process := none }
    | none => p

def cancel (running : Bool) (p : FfmpegDashPackager) : FfmpegDashPackager :=
  match p.process with
  | some _ =>
    if running then { p with calls := p.calls ++ [.kill, .waitForFinished 3000] } else p
  | none => p

/-- The exit status is not looked at. -/
def on : ProcessEvent → FfmpegDashPackager → FfmpegDashPackager
  | .finished exitCode _ standardError, p =>
    if exitCode = 0 then p.complete true p.mpdPath ""
    else
      let err := match p.process with
        | some _ => standardError
        | none => ""
      p.complete false "" err
  | .errorOccurred _, p =>
    p.complete false "" "Failed to start ffmpeg. Ensure ffmpeg is installed and on PATH."
  | .cancel running, p => p.cancel running

/-- The destructor. -/
def destroy (running : Bool) (p : FfmpegDashPackager) : FfmpegDashPackager := p.cancel running

end FfmpegDashPackager

/-! ## FfmpegClipExporter -/

structure FfmpegClipExporter where
  process : Option QProcess := none
  outputPath : String := ""
  completed : Bool := false
  onFinished : Bool := false
  calls : List WrapperCall := []
  deriving DecidableEq

namespace FfmpegClipExporter

/-- The rest of `exportClip`. -/
def start (mpdPath outputPath : String) (startSec endSec : Int32) (x : FfmpegClipExporter) :
    FfmpegClipExporter :=
  { x with
    outputPath
    completed := false
    process := some ⟨"ffmpeg", exportClip mpdPath outputPath startSec endSec⟩ }

def complete (success : Bool) (outputPath errorMessage : String) (x : FfmpegClipExporter) :
    FfmpegClipExporter :=
  if x.completed then x
  else
    let x := { x with completed := true }
    let x := if x.onFinished then
        { x with calls := x.calls ++ [.onFinished success outputPath errorMessage] }
      else x
    match x.process with
    | some _ => { x with calls := x.calls ++ [.deleteLater], process := none }
    | none => x

def cancel (running : Bool) (x : FfmpegClipExporter) : FfmpegClipExporter :=
  match x.process with
  | some _ =>
    if running then { x with calls := x.calls ++ [.kill, .waitForFinished 3000] } else x
  | none => x

def on : ProcessEvent → FfmpegClipExporter → FfmpegClipExporter
  | .finished exitCode _ standardError, x =>
    if exitCode = 0 then x.complete true x.outputPath ""
    else
      let err := match x.process with
        | some _ => standardError
        | none => ""
      x.complete false "" err
  | .errorOccurred _, x =>
    x.complete false "" "Failed to start ffmpeg. Ensure ffmpeg is installed and on PATH."
  | .cancel running, x => x.cancel running

def destroy (running : Bool) (x : FfmpegClipExporter) : FfmpegClipExporter := x.cancel running

end FfmpegClipExporter

/-! ## One is a copy of the other -/

/-- The exporter with the fields of a packager. -/
def FfmpegDashPackager.toExporter (p : FfmpegDashPackager) : FfmpegClipExporter where
  process := p.process
  outputPath := p.mpdPath
  completed := p.completed
  onFinished := p.onFinished
  calls := p.calls

def FfmpegClipExporter.toPackager (x : FfmpegClipExporter) : FfmpegDashPackager where
  process := x.process
  mpdPath := x.outputPath
  completed := x.completed
  onFinished := x.onFinished
  calls := x.calls

section Copy

open FfmpegDashPackager

theorem complete_toExporter (success : Bool) (path errorMessage : String) (p : FfmpegDashPackager) :
    p.toExporter.complete success path errorMessage =
      (p.complete success path errorMessage).toExporter := by
  obtain ⟨process, mpdPath, completed, onFinished, calls⟩ := p
  cases completed with
  | true => rfl
  | false =>
    cases onFinished with
    | true => cases process <;> rfl
    | false => cases process <;> rfl

theorem cancel_toExporter (running : Bool) (p : FfmpegDashPackager) :
    p.toExporter.cancel running = (p.cancel running).toExporter := by
  obtain ⟨process, mpdPath, completed, onFinished, calls⟩ := p
  cases process with
  | none => rfl
  | some q =>
    cases running with
    | true => rfl
    | false => rfl

theorem on_toExporter (e : ProcessEvent) (p : FfmpegDashPackager) :
    p.toExporter.on e = (p.on e).toExporter := by
  cases e with
  | errorOccurred error => exact complete_toExporter _ _ _ p
  | finished exitCode exitStatus standardError =>
    by_cases hzero : exitCode = 0
    · have hp : p.on (.finished exitCode exitStatus standardError) =
          p.complete true p.mpdPath "" := if_pos hzero
      have hx : p.toExporter.on (.finished exitCode exitStatus standardError) =
          p.toExporter.complete true p.mpdPath "" := if_pos hzero
      rw [hp, hx]
      exact complete_toExporter _ _ _ p
    · have hp : p.on (.finished exitCode exitStatus standardError) =
          p.complete false "" (match p.process with | some _ => standardError | none => "") :=
        if_neg hzero
      have hx : p.toExporter.on (.finished exitCode exitStatus standardError) =
          p.toExporter.complete false ""
            (match p.process with | some _ => standardError | none => "") := if_neg hzero
      rw [hp, hx]
      exact complete_toExporter _ _ _ p
  | cancel running => exact cancel_toExporter running p

end Copy

/-! ## One report -/

structure Report where
  success : Bool
  path : String
  errorMessage : String
  deriving DecidableEq

def WrapperCall.report? : WrapperCall → Option Report
  | .onFinished success path errorMessage => some ⟨success, path, errorMessage⟩
  | _ => none

/-- What there is to see of a wrapper from outside. -/
structure Wrapper (σ : Type) where
  on : ProcessEvent → σ → σ
  destroy : Bool → σ → σ
  process : σ → Option QProcess
  calls : σ → List WrapperCall

namespace Wrapper

variable {σ : Type} (W : Wrapper σ)

def run (es : List ProcessEvent) (s : σ) : σ := es.foldl (fun s e => W.on e s) s

def reports (s : σ) : List Report := (W.calls s).filterMap (·.report?)

end Wrapper

def FfmpegDashPackager.wrapper : Wrapper FfmpegDashPackager where
  on := FfmpegDashPackager.on
  destroy := FfmpegDashPackager.destroy
  process p := p.process
  calls p := p.calls

def FfmpegClipExporter.wrapper : Wrapper FfmpegClipExporter where
  on := FfmpegClipExporter.on
  destroy := FfmpegClipExporter.destroy
  process x := x.process
  calls x := x.calls

namespace ProcessEvent

def isError : ProcessEvent → Bool
  | .errorOccurred _ => true
  | _ => false

def isFinished : ProcessEvent → Bool
  | .finished _ _ _ => true
  | _ => false

def isSignal (e : ProcessEvent) : Bool := e.isError || e.isFinished

/-- The process exits normally with code 0, and no error comes first. A process ends
once: it is its first `finished` that tells how. -/
def ExitsWell (es : List ProcessEvent) : Prop :=
  ∃ before standardError after, es = before ++ .finished 0 .normalExit standardError :: after ∧
    (∀ e ∈ before, e.isFinished = false) ∧ ∀ e ∈ before, e.isError = false

/-- A crash is announced by an error. -/
def CrashAnnounced (es : List ProcessEvent) : Prop :=
  ∀ before exitCode standardError after,
    es = before ++ .finished exitCode .crashExit standardError :: after →
      ∃ e ∈ before, e.isError = true

end ProcessEvent

/-- What is promised of a wrapper whose process has been started. -/
structure Wrapper.ReportsOnce {σ : Type} (W : Wrapper σ) (path : String) (es : List ProcessEvent)
    (s : σ) : Prop where
  atMostOnce : (W.reports (W.run es s)).length ≤ 1
  exactlyOnce : (W.reports (W.run es s)).length = 1 ↔ ∃ e ∈ es, e.isSignal = true
  success : ∀ r ∈ W.reports (W.run es s), r.success = true ↔ ProcessEvent.ExitsWell es
  path : ∀ r ∈ W.reports (W.run es s), r.path = if r.success then path else ""
  cleared : (∃ e ∈ es, e.isSignal = true) → W.process (W.run es s) = none
  settled : (∃ e ∈ es, e.isSignal = true) → ∀ later, W.run later (W.run es s) = W.run es s
  destroyed : (∃ e ∈ es, e.isSignal = true) → ∀ running,
    W.destroy running (W.run es s) = W.run es s

namespace FfmpegDashPackager

/-- What an event makes the packager report, when it is the first to do so. -/
def answer? (path : String) : ProcessEvent → Option Report
  | .finished exitCode _ standardError =>
    some (if exitCode = 0 then ⟨true, path, ""⟩ else ⟨false, "", standardError⟩)
  | .errorOccurred _ =>
    some ⟨false, "", "Failed to start ffmpeg. Ensure ffmpeg is installed and on PATH."⟩
  | .cancel _ => none

theorem isSome_answer? (path : String) (e : ProcessEvent) :
    (answer? path e).isSome = e.isSignal := by
  cases e with
  | errorOccurred error => rfl
  | finished exitCode exitStatus standardError => rfl
  | cancel running => rfl

/-- The process is there, and nothing has been reported. -/
structure Waiting (path : String) (p : FfmpegDashPackager) : Prop where
  process : p.process.isSome = true
  mpdPath : p.mpdPath = path
  completed : p.completed = false
  onFinished : p.onFinished = true
  reports : wrapper.reports p = []

structure Done (r : Report) (p : FfmpegDashPackager) : Prop where
  process : p.process = none
  completed : p.completed = true
  reports : wrapper.reports p = [r]

variable {path : String} {p : FfmpegDashPackager}

theorem done_complete (h : Waiting path p) (success : Bool) (mpdPath errorMessage : String) :
    Done ⟨success, mpdPath, errorMessage⟩ (p.complete success mpdPath errorMessage) := by
  obtain ⟨process, _, _, _, calls⟩ := p
  obtain ⟨hprocess, -, rfl, rfl, hreports⟩ := h
  obtain ⟨q, rfl⟩ := Option.isSome_iff_exists.mp hprocess
  refine ⟨rfl, rfl, ?_⟩
  have hcalls : calls.filterMap (·.report?) = [] := hreports
  show List.filterMap WrapperCall.report? (calls ++ [_] ++ [WrapperCall.deleteLater]) = _
  rw [List.filterMap_append, List.filterMap_append, hcalls]
  rfl

theorem complete_of_done {r : Report} (h : Done r p) (success : Bool)
    (mpdPath errorMessage : String) : p.complete success mpdPath errorMessage = p :=
  if_pos h.completed

theorem cancel_of_done {r : Report} (h : Done r p) (running : Bool) : p.cancel running = p := by
  unfold cancel
  rw [h.process]

theorem waiting_cancel (h : Waiting path p) (running : Bool) : Waiting path (p.cancel running) := by
  obtain ⟨q, hq⟩ := Option.isSome_iff_exists.mp h.process
  cases running with
  | false =>
    have hsame : p.cancel false = p := by
      unfold cancel
      rw [hq]
      rfl
    rwa [hsame]
  | true =>
    have hkill : p.cancel true = { p with calls := p.calls ++ [.kill, .waitForFinished 3000] } := by
      unfold cancel
      rw [hq]
      rfl
    rw [hkill]
    refine ⟨h.process, h.mpdPath, h.completed, h.onFinished, ?_⟩
    have hcalls : p.calls.filterMap (·.report?) = [] := h.reports
    show List.filterMap WrapperCall.report? (p.calls ++ _) = []
    rw [List.filterMap_append, hcalls]
    rfl

/-- The packager as a latch. -/
def latch (path : String) : Latch FfmpegDashPackager ProcessEvent Report where
  on := on
  answer? := answer? path
  Waiting := Waiting path
  Done := Done
  wait {e p} h hnone := by
    cases e with
    | errorOccurred error => cases hnone
    | finished exitCode exitStatus standardError => cases hnone
    | cancel running => exact waiting_cancel h running
  fire {e p r} h hsome := by
    cases e with
    | errorOccurred error =>
      obtain rfl := Option.some.inj hsome
      exact done_complete h _ _ _
    | finished exitCode exitStatus standardError =>
      obtain rfl := Option.some.inj hsome
      obtain ⟨q, hq⟩ := Option.isSome_iff_exists.mp h.process
      by_cases hzero : exitCode = 0
      · rw [on, if_pos hzero, if_pos hzero, h.mpdPath]
        exact done_complete h _ _ _
      · rw [on, if_neg hzero, if_neg hzero, hq]
        exact done_complete h _ _ _
    | cancel running => cases hsome
  stay {r p} e h := by
    cases e with
    | errorOccurred error => exact complete_of_done h _ _ _
    | finished exitCode exitStatus standardError =>
      by_cases hzero : exitCode = 0
      · rw [on, if_pos hzero]
        exact complete_of_done h _ _ _
      · rw [on, if_neg hzero]
        exact complete_of_done h _ _ _
    | cancel running => exact cancel_of_done h running

theorem waiting_package (mp4Path outputDir videoCodec audioCodec : String)
    (hset : p.onFinished = true) (hcalls : wrapper.reports p = []) :
    Waiting (outputDir ++ "/manifest.mpd") (p.package mp4Path outputDir videoCodec audioCodec) :=
  ⟨rfl, rfl, rfl, hset, hcalls⟩

theorem path_of_answer {e : ProcessEvent} {r : Report} (h : answer? path e = some r) :
    r.path = (if r.success then path else "") ∧ (r.success = true → r.errorMessage = "") := by
  cases e with
  | errorOccurred error =>
    obtain rfl := Option.some.inj h
    simp
  | finished exitCode exitStatus standardError =>
    obtain rfl := Option.some.inj h
    split
    · simp
    · simp
  | cancel running => cases h

/-- The first signal tells how ffmpeg has ended, although nothing looks at the exit status. -/
theorem success_iff_exitsWell {es : List ProcessEvent} {r : Report}
    (hcrash : ProcessEvent.CrashAnnounced es) (h : es.findSome? (answer? path) = some r) :
    r.success = true ↔ ProcessEvent.ExitsWell es := by
  have hsilent : ∀ e : ProcessEvent, answer? path e = none ↔ e.isSignal = false := by
    intro e
    rw [← isSome_answer? path, Option.isSome_eq_false_iff, Option.isNone_iff_eq_none]
  constructor
  · intro hsuccess
    obtain ⟨before, e, after, rfl, he, hbefore⟩ := List.findSome?_eq_some_iff.mp h
    have hquiet : ∀ e ∈ before, e.isError = false ∧ e.isFinished = false := fun e hmem =>
      Bool.or_eq_false_iff.mp ((hsilent e).mp (hbefore e hmem))
    cases e with
    | errorOccurred error =>
      obtain rfl := Option.some.inj he
      cases hsuccess
    | finished exitCode exitStatus standardError =>
      cases exitStatus with
      | normalExit =>
        have hzero : exitCode = 0 := by
          by_contra hne
          obtain rfl := Option.some.inj he
          rw [if_neg hne] at hsuccess
          cases hsuccess
        rw [hzero]
        exact ⟨before, standardError, after, rfl, fun e hmem => (hquiet e hmem).2,
          fun e hmem => (hquiet e hmem).1⟩
      | crashExit =>
        obtain ⟨e, hmem, herror⟩ := hcrash before exitCode standardError after rfl
        rw [(hquiet e hmem).1] at herror
        cases herror
    | cancel running => cases he
  · rintro ⟨before, standardError, after, rfl, hfinished, herror⟩
    have hnone : before.findSome? (answer? path) = none := by
      rw [List.findSome?_eq_none_iff]
      intro e hmem
      rw [hsilent, ProcessEvent.isSignal, herror e hmem, hfinished e hmem]
      rfl
    rw [List.findSome?_append, hnone] at h
    obtain rfl := Option.some.inj h
    rfl

variable (path) in
theorem signal_iff {es : List ProcessEvent} :
    (∃ e ∈ es, e.isSignal = true) ↔ (es.findSome? (answer? path)).isSome = true := by
  simp [List.isSome_findSome?, isSome_answer?]

theorem reportsOnce_of_waiting {es : List ProcessEvent} (h : Waiting path p)
    (hcrash : ProcessEvent.CrashAnnounced es) : wrapper.ReportsOnce path es p := by
  have hsignal : (∃ e ∈ es, e.isSignal = true) ↔
      (es.findSome? (answer? path)).isSome = true := signal_iff path
  cases hfirst : es.findSome? (answer? path) with
  | none =>
    have hnone : ¬ ∃ e ∈ es, e.isSignal = true := by
      rw [hsignal, hfirst]
      exact Bool.false_ne_true
    have hreports : wrapper.reports (wrapper.run es p) = [] :=
      ((latch path).waiting_run h hfirst).reports
    constructor
    · rw [hreports]
      exact Nat.zero_le 1
    · rw [hreports]
      exact iff_of_false Nat.zero_ne_one hnone
    · rw [hreports]
      exact List.forall_mem_nil _
    · rw [hreports]
      exact List.forall_mem_nil _
    · exact fun hsome => absurd hsome hnone
    · exact fun hsome => absurd hsome hnone
    · exact fun hsome => absurd hsome hnone
  | some r =>
    have hdone : Done r (wrapper.run es p) := (latch path).done_run h hfirst
    obtain ⟨e, -, he⟩ := List.exists_of_findSome?_eq_some hfirst
    constructor
    · rw [hdone.reports]
      exact le_refl 1
    · rw [hdone.reports, hsignal, hfirst]
      exact iff_of_true rfl rfl
    · rw [hdone.reports, List.forall_mem_singleton]
      exact success_iff_exitsWell hcrash hfirst
    · rw [hdone.reports, List.forall_mem_singleton]
      exact (path_of_answer he).1
    · exact fun _ => hdone.process
    · exact fun _ later => (latch path).run_of_done hdone later
    · exact fun _ running => cancel_of_done hdone running

end FfmpegDashPackager

section Copy

variable {σ τ : Type} {W : Wrapper σ} {V : Wrapper τ} {f : σ → τ}

/-- What one wrapper does at each event, the other does over any sequence. -/
theorem Wrapper.run_map (hon : ∀ e s, V.on e (f s) = f (W.on e s)) (es : List ProcessEvent)
    (s : σ) : V.run es (f s) = f (W.run es s) :=
  List.foldl_hom f fun s e => hon e s

theorem Wrapper.ReportsOnce.map {path : String} {es : List ProcessEvent} {s : σ}
    (h : W.ReportsOnce path es s) (hon : ∀ e s, V.on e (f s) = f (W.on e s))
    (hdestroy : ∀ running s, V.destroy running (f s) = f (W.destroy running s))
    (hprocess : ∀ s, V.process (f s) = W.process s) (hcalls : ∀ s, V.calls (f s) = W.calls s) :
    V.ReportsOnce path es (f s) := by
  have hreports : V.reports (V.run es (f s)) = W.reports (W.run es s) := by
    rw [run_map hon, reports, hcalls]
    rfl
  constructor
  · rw [hreports]
    exact h.atMostOnce
  · rw [hreports]
    exact h.exactlyOnce
  · rw [hreports]
    exact h.success
  · rw [hreports]
    exact h.path
  · intro hsome
    rw [run_map hon, hprocess]
    exact h.cleared hsome
  · intro hsome later
    rw [run_map hon, run_map hon, h.settled hsome later]
  · intro hsome running
    rw [run_map hon, hdestroy, h.destroyed hsome running]

end Copy

/-- A fresh wrapper with its callback set, as the processor makes them. -/
theorem FfmpegDashPackager.reportsOnce (mp4Path outputDir videoCodec audioCodec : String)
    {es : List ProcessEvent} (hcrash : ProcessEvent.CrashAnnounced es) :
    FfmpegDashPackager.wrapper.ReportsOnce (outputDir ++ "/manifest.mpd") es
      (package mp4Path outputDir videoCodec audioCodec { onFinished := true }) :=
  reportsOnce_of_waiting (waiting_package mp4Path outputDir videoCodec audioCodec rfl rfl) hcrash

theorem FfmpegClipExporter.waiting_start (mpdPath outputPath : String) (startSec endSec : Int32) :
    FfmpegDashPackager.Waiting outputPath
      (start mpdPath outputPath startSec endSec { onFinished := true }).toPackager :=
  ⟨rfl, rfl, rfl, rfl, rfl⟩

theorem FfmpegClipExporter.reportsOnce (mpdPath outputPath : String) (startSec endSec : Int32)
    {es : List ProcessEvent} (hcrash : ProcessEvent.CrashAnnounced es) :
    FfmpegClipExporter.wrapper.ReportsOnce outputPath es
      (start mpdPath outputPath startSec endSec { onFinished := true }) := by
  have h := FfmpegDashPackager.reportsOnce_of_waiting
    (waiting_start mpdPath outputPath startSec endSec) hcrash
  exact h.map (f := FfmpegDashPackager.toExporter) on_toExporter cancel_toExporter (fun _ => rfl)
    fun _ => rfl

/-- **One report for each process**, and a truthful one; the two classes do the same. -/
theorem wrappers_reportOnce (mp4Path outputDir videoCodec audioCodec mpdPath outputPath : String)
    (startSec endSec : Int32) (es : List ProcessEvent)
    (hcrash : ProcessEvent.CrashAnnounced es) :
    FfmpegDashPackager.wrapper.ReportsOnce (outputDir ++ "/manifest.mpd") es
        (.package mp4Path outputDir videoCodec audioCodec { onFinished := true }) ∧
      FfmpegClipExporter.wrapper.ReportsOnce outputPath es
        (.start mpdPath outputPath startSec endSec { onFinished := true }) ∧
      ∀ es p, FfmpegClipExporter.wrapper.run es (FfmpegDashPackager.toExporter p) =
        (FfmpegDashPackager.wrapper.run es p).toExporter := by
  refine ⟨?_, ?_, ?_⟩
  · exact FfmpegDashPackager.reportsOnce mp4Path outputDir videoCodec audioCodec hcrash
  · exact FfmpegClipExporter.reportsOnce mpdPath outputPath startSec endSec hcrash
  · exact Wrapper.run_map on_toExporter

theorem wrappers_reportOnce_killed :
    FfmpegDashPackager.wrapper.ReportsOnce "00000000000000aa/manifest.mpd"
        [.cancel true, .errorOccurred .crashed, .finished 9 .crashExit "", .cancel false]
        (.package "00000000000000aa.mp4" "00000000000000aa" "hevc" "aac" { onFinished := true }) ∧
      FfmpegClipExporter.wrapper.ReportsOnce ".exports/1.mp4"
        [.cancel true, .errorOccurred .crashed, .finished 9 .crashExit "", .cancel false]
        (.start "00000000000000aa/manifest.mpd" ".exports/1.mp4" 0 5 { onFinished := true }) ∧
      ∀ es p, FfmpegClipExporter.wrapper.run es (FfmpegDashPackager.toExporter p) =
        (FfmpegDashPackager.wrapper.run es p).toExporter := by
  refine wrappers_reportOnce "00000000000000aa.mp4" "00000000000000aa" "hevc" "aac"
    "00000000000000aa/manifest.mpd" ".exports/1.mp4" 0 5 _ ?_
  intro before exitCode standardError after he
  rcases before with _ | ⟨e, _ | ⟨e', before⟩⟩
  · cases he
  · cases he
  · obtain ⟨-, hrest⟩ := List.cons.inj he
    obtain ⟨rfl, -⟩ := List.cons.inj hrest
    exact ⟨.errorOccurred .crashed, by simp, rfl⟩

/-! ## The processes of the workers -/

/-- The packager of a started worker. -/
def FfmpegDashPackager.ofWorker (w : Packager) (videoCodec audioCodec : String) :
    FfmpegDashPackager :=
  package w.mp4Path w.outputDir videoCodec audioCodec { onFinished := true }

def FfmpegClipExporter.ofWorker (w : ClipExport) : FfmpegClipExporter :=
  start w.mpdPath w.outputPath (.ofInt w.startSec) (.ofInt w.endSec) { onFinished := true }

end VisionPlayback
