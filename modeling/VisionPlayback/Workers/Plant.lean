import VisionPlayback.FfmpegProcess
import VisionPlayback.HCNetSDKDownloader
import VisionPlayback.Http.Daemon
import VisionPlayback.Processor.Starts

/-!
# The processor with the worker objects themselves

The slots of the processor, the download threads and the wrappers of the ffmpeg
processes, joined as the source joins them: a slot starts an object by a call, and
an object posts a completion by calling `onFinished`.
-/

namespace VisionPlayback

open Lib StreamCache

/-! ## What the objects report at each step -/

/-- A thread reports when it ends, and not otherwise. -/
theorem HCNetSDKDownloader.reports_step {w : Downloader} {a : HCNetSDKDownloader.Action}
    {t t' : HCNetSDKDownloader.Thread}
    (h : HCNetSDKDownloader.step (.ofWorker w) a t = some t') :
    (t.place ≠ .ended ∧ t'.place = .ended ∧ ∃ r, t'.reports = t.reports ++ [r]) ∨
      (t'.reports = t.reports ∧ (t'.place = .ended ↔ t.place = .ended)) := by
  have hpoll : ∀ hDl pos,
      ((HCNetSDKDownloader.ofWorker w).poll hDl pos).filterMap (·.report?) = [] := by
    intro hDl pos
    unfold HCNetSDKDownloader.poll HCNetSDKDownloader.progressed
    split
    · rfl
    · rfl
  have happend : ∀ calls : List HCNetSDKDownloader.Call,
      (t.calls ++ calls).filterMap (·.report?) = t.reports ++ calls.filterMap (·.report?) :=
    fun _ => List.filterMap_append
  cases HCNetSDKDownloader.stepped h with
  | cancelled => exact Or.inr ⟨rfl, Iff.rfl⟩
  | @openFailed hDl lastError hplace =>
    exact Or.inl ⟨by simp [hplace], rfl, (false, _), happend (_ :: [.onFinished false _])⟩
  | @playFailed hDl lastError hplace =>
    exact Or.inl ⟨by simp [hplace], rfl, (false, _), happend (_ :: _ :: [.onFinished false _])⟩
  | finalTested hplace =>
    exact Or.inl ⟨by simp [hplace], rfl, (_, _), happend [.onFinished _ _]⟩
  | opened hplace | played hplace | stopped hplace =>
    exact Or.inr ⟨(happend [_]).trans (List.append_nil _), by simp [hplace]⟩
  | testedStop hplace | testedMore hplace => exact Or.inr ⟨rfl, by simp [hplace]⟩
  | sampledLast hplace | sampledMore hplace =>
    refine Or.inr ⟨?_, by simp [hplace]⟩
    rw [HCNetSDKDownloader.Thread.reports, happend, hpoll, List.append_nil]

namespace FfmpegDashPackager

/-- A wrapper makes its one report, or reports nothing and is as far as it was. -/
theorem reports_on {path : String} {o : FfmpegDashPackager}
    (h : Waiting path o ∨ ∃ r, Done r o) (e : ProcessEvent) :
    (∃ r, wrapper.reports o = [] ∧ o.process.isSome = true ∧ Done r (o.on e) ∧
        r.path = (if r.success then path else "") ∧ (r.success = true → r.errorMessage = "")) ∨
      (wrapper.reports (o.on e) = wrapper.reports o ∧
        ((o.on e).process.isSome = true ↔ o.process.isSome = true) ∧
        (Waiting path (o.on e) ∨ ∃ r, Done r (o.on e)) ∧ ∀ r, Done r o → Done r (o.on e)) := by
  rcases h with h | ⟨r, h⟩
  · cases hr : answer? path e with
    | none =>
      have hw : Waiting path (o.on e) := (latch path).wait h hr
      refine Or.inr ⟨hw.reports.trans h.reports.symm, iff_of_true hw.process h.process,
        Or.inl hw, fun r hd => ?_⟩
      have hc := h.completed
      rw [hd.completed] at hc
      cases hc
    | some r =>
      exact Or.inl ⟨r, h.reports, h.process, (latch path).fire h hr, path_of_answer hr⟩
  · have hsame : o.on e = o := (latch path).stay e h
    rw [hsame]
    exact Or.inr ⟨rfl, Iff.rfl, Or.inr ⟨r, h⟩, fun _ hd => hd⟩

end FfmpegDashPackager

/-! ## The joined system -/

/-- The processor and its objects; the worker lists of the machine are not used. -/
structure Plant where
  processor : Machine
  threads : Table Nat (Downloader × HCNetSDKDownloader.Thread) := ∅
  packagers : Table Nat (Packager × FfmpegDashPackager) := ∅
  /-- By request id. -/
  exporters : Table Nat (ClipExport × FfmpegClipExporter) := ∅

namespace Plant

inductive Action
  /-- A signal of the listener, or a restart. -/
  | outside (a : Machine.Action)
  /-- `probe` gives the codecs that the probes of a source answer. -/
  | handle (env : Env) (probe : String → String × String)
  | thread (id : Nat) (a : HCNetSDKDownloader.Action)
  | packager (id : Nat) (e : ProcessEvent)
  | exporter (id : Nat) (e : ProcessEvent)
  | downloadWrite (id : Nat) (f : File)
  | packageWrite (id : Nat) (p : PackageDir)
  | exportWrite (id : Nat) (f : File)

/-- The SDK writes from the moment it has given a handle until it is stopped. -/
def writing : HCNetSDKDownloader.Place → Bool
  | .playStart _ | .test _ _ | .getDownloadPos _ | .stopGetFile _ _ => true
  | .getFileByTime | .finalTest _ | .ended => false

/-- Starts the objects that a slot has called for. -/
def obey (probe : String → String × String) (calls : List Call) (p : Plant) : Plant :=
  { p with
    threads := (calls.filterMap (·.download?)).foldl
      (fun t w => t.insert w.id (w, {})) p.threads
    packagers := (calls.filterMap (·.package?)).foldl
      (fun t w => t.insert w.id
        (w, .ofWorker w (probe w.mp4Path).1 (probe w.mp4Path).2)) p.packagers
    exporters := (calls.filterMap (·.export?)).foldl
      (fun t w => t.insert w.requestId (w, .ofWorker w)) p.exporters }

/-- `QMetaObject::invokeMethod` with a queued connection. -/
def post (es : List Event) (m : Machine) : Machine :=
  { m with queue := m.queue ++ es, calls := [] }

def write (disk : Disk) (m : Machine) : Machine := { m with disk, calls := [] }

def step (cfg : Config) : Action → Plant → Option Plant
  | .outside a, p =>
    if a.internal then none
    else (Machine.step cfg a p.processor).map fun m =>
      match a with
      | .restart => { processor := m }
      | _ => { p with processor := m }
  | .handle env probe, p =>
    (Machine.step cfg (.handle env) p.processor).map fun m =>
      obey probe m.calls { p with processor := m }
  | .thread id a, p =>
    match p.threads.lookup id with
    | none => none
    | some (w, t) => (HCNetSDKDownloader.step (.ofWorker w) a t).map fun t' =>
      { p with
        threads := p.threads.insert id (w, t')
        processor := post ((t'.reports.drop t.reports.length).map fun r =>
          .downloadFinished id w.request.key r.1 r.2) p.processor }
  | .packager id e, p =>
    match p.packagers.lookup id with
    | none => none
    | some (w, o) =>
      let reports := FfmpegDashPackager.wrapper.reports
      some { p with
        packagers := p.packagers.insert id (w, o.on e)
        processor := post (((reports (o.on e)).drop (reports o).length).map fun r =>
          .packageFinished id w.key r.success r.errorMessage) p.processor }
  | .exporter id e, p =>
    match p.exporters.lookup id with
    | none => none
    | some (w, x) =>
      let reports := FfmpegClipExporter.wrapper.reports
      some { p with
        exporters := p.exporters.insert id (w, x.on e)
        processor := post (((reports (x.on e)).drop (reports x).length).map fun r =>
          .exportDone id r.success r.path r.errorMessage) p.processor }
  | .downloadWrite id f, p =>
    match p.threads.lookup id with
    | none => none
    | some (w, t) =>
      if writing t.place then
        let disk := p.processor.disk
        some { p with
          processor := write { disk with raw := disk.raw.insert w.outputPath f } p.processor }
      else none
  | .packageWrite id d, p =>
    match p.packagers.lookup id with
    | none => none
    | some (w, o) =>
      if o.process.isSome then
        let disk := p.processor.disk
        some { p with
          processor := write { disk with dirs := disk.dirs.insert w.outputDir d } p.processor }
      else none
  | .exportWrite id f, p =>
    match p.exporters.lookup id with
    | none => none
    | some (w, x) =>
      if x.process.isSome then
        let disk := p.processor.disk
        some { p with
          processor := write { disk with exports := disk.exports.insert w.outputPath ⟨f, w⟩ }
            p.processor }
      else none

def system (cfg : Config) : System Plant Action := ⟨step cfg⟩

def start (disk : Disk) : Plant := { processor := Machine.start disk }

/-- The id of a new export request has not been used in this process. -/
def FreshRequest (t : Transition Plant Action) : Prop :=
  match t.action with
  | .outside (.requestExport requestId _ _ _) => requestId ∉ t.pre.processor.requestIds
  | _ => True

instance (t : Transition Plant Action) : Decidable (FreshRequest t) := by
  unfold FreshRequest
  split <;> infer_instance

end Plant

end VisionPlayback
