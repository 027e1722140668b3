import VisionPlayback.Http.Settling
import VisionPlayback.Workers.Refinement

/-!
# The process

The listener, and the processor with its worker objects, with a queue each way: what the
composition root builds. To those outside it does what the daemon does, in which a worker
is a name that ends once.
-/

namespace VisionPlayback

open Lib

/-- The worker lists of the machine are not used, and neither is `evicted`. -/
structure Program where
  daemon : Daemon
  threads : Table Nat (Downloader × HCNetSDKDownloader.Thread) := ∅
  packagers : Table Nat (Packager × FfmpegDashPackager) := ∅
  exporters : Table Nat (ClipExport × FfmpegClipExporter) := ∅

namespace Program

def plant (s : Program) : Plant where
  processor := s.daemon.machine
  threads := s.threads
  packagers := s.packagers
  exporters := s.exporters

inductive Action
  /-- A request, or a signal that the listener handles. -/
  | listener (a : Daemon.Action)
  /-- A slot of the processor, or a step of an object. -/
  | processor (a : Plant.Action)

/-- After a step of the processor, what its slot has emitted is on its way. -/
def proceed (p : Plant) (s : Program) : Program where
  daemon := { s.daemon with
    machine := p.processor
    toHttp := s.daemon.toHttp ++ p.processor.emits }
  threads := p.threads
  packagers := p.packagers
  exporters := p.exporters

def step (cfg : DaemonConfig) : Action → Program → Option Program
  | .listener a, s =>
    if a.works then none
    else (Daemon.step cfg a s.daemon).map fun daemon => { s with daemon }
  | .processor a, s =>
    if a.outside?.isSome then none
    else (Plant.step cfg.processor a s.plant).map fun p => s.proceed p

def system (cfg : DaemonConfig) : System Program Action := ⟨step cfg⟩

def start (disk : Disk) : Program := { daemon := Daemon.start disk }

/-! ## The daemon that does the same -/

/-- What the listener does. -/
def Action.listener? : Action → Option Daemon.Action
  | .listener a => some a
  | .processor _ => none

def ofListener (a : Daemon.Action) : Option Daemon.Action := if a.works then none else some a

/-- The daemon is in the same state, up to the objects and `evicted`. -/
inductive Refines (s : Program) : Daemon → Prop
  | intro (m : Machine) (evicted : List String) (hs : s.plant.Sound) (hr : s.plant.Refines m) :
      Refines s { s.daemon with machine := m, evicted }

variable {cfg : DaemonConfig} {s s' : Program} {d : Daemon} {disk : Disk}

/-- The id of the next download is new until the counter has gone round. -/
theorem freshExportId_new (hd : (Daemon.system cfg).Reachable (Daemon.start disk) d)
    (hcount : d.accepted.length + 1 ≤ 2 ^ 64) :
    d.listener.freshExportId ∉ d.machine.requestIds := by
  have hbooks := (Daemon.books hd).1
  rw [Daemon.requestIds_eq hd, hbooks.ids, hbooks.freshExportId]
  exact (List.nodup_cons.mp (Daemon.nodup_issuedIds hcount)).1

/-- Removing a temporary file does the same to both. -/
theorem matched_dropExport (cfg : DaemonConfig) {p : Plant} {m : Machine} (path : Option String)
    (hs : p.Sound) (hr : p.Refines m) :
    let p' := { p with processor := Daemon.dropExport cfg path p.processor }
    p'.Sound ∧ p'.Refines (Daemon.dropExport cfg path m) := by
  cases path with
  | none => exact ⟨hs, hr⟩
  | some path =>
    have hdrop : Machine.step cfg.processor (.dropExport path) p.processor =
        some (Daemon.dropExport cfg (some path) p.processor) := rfl
    obtain ⟨hs', m', hm', -, hr'⟩ :=
      Plant.matched_outside (a := .dropExport path) hs hr rfl (by simp) hdrop (by simp)
    obtain rfl := Option.some.inj hm'
    exact ⟨hs', hr'⟩

/-- What the listener does, the daemon does too. -/
theorem refines_listener {a : Daemon.Action} {daemon : Daemon}
    (hd : (Daemon.system cfg).Reachable (Daemon.start disk) d) (hr : Refines s d)
    (ha : a.works = false) (h : Daemon.step cfg a s.daemon = some daemon)
    (hcount : daemon.accepted.length ≤ 2 ^ 64) :
    ∃ d', Daemon.step cfg a d = some d' ∧ Refines { s with daemon } d' := by
  obtain ⟨m, evicted, hs, hr⟩ := hr
  have hsame : m.disk = s.daemon.machine.disk ∧ m.requestIds = s.daemon.machine.requestIds := by
    obtain ⟨u, calls, rfl⟩ := hr.processor
    exact ⟨rfl, rfl⟩
  cases a with
  | playbackPost providedKey body =>
    simp only [Daemon.step] at h ⊢
    cases hpost : (Listener.handlePlaybackPost cfg.http providedKey body).2 with
    | none =>
      rw [hpost] at h
      obtain rfl := Option.some.inj h
      exact ⟨_, rfl, .intro m evicted hs hr⟩
    | some request =>
      rw [hpost] at h
      obtain ⟨machine, hm, rfl⟩ := Option.map_eq_some_iff.mp h
      obtain ⟨hs', m', hm', -, hr'⟩ :=
        Plant.matched_outside (a := .post request) hs hr rfl (by simp) hm (by simp)
      exact ⟨_, Option.map_eq_some_iff.mpr ⟨m', hm', rfl⟩, .intro m' evicted hs' hr'⟩
  | dashGet dir name =>
    simp only [Daemon.step] at h ⊢
    obtain ⟨machine, hm, rfl⟩ := Option.map_eq_some_iff.mp h
    obtain ⟨hs', m', hm', -, hr'⟩ :=
      Plant.matched_outside (a := .access dir) hs hr rfl (by simp) hm (by simp)
    exact ⟨_, Option.map_eq_some_iff.mpr ⟨m', hm', rfl⟩, .intro m' evicted hs' hr'⟩
  | downloadGet hash start stop =>
    simp only [Daemon.step] at h ⊢
    cases hcheck : Listener.checkDownload hash start stop with
    | error response =>
      rw [hcheck] at h
      obtain rfl := Option.some.inj h
      exact ⟨_, rfl, .intro m evicted hs hr⟩
    | ok r =>
      obtain ⟨request, filename⟩ := r
      rw [hcheck] at h
      obtain ⟨machine, hm, rfl⟩ := Option.map_eq_some_iff.mp h
      have hnew : s.daemon.listener.freshExportId ∉ s.daemon.machine.requestIds :=
        hsame.2 ▸ freshExportId_new hd hcount
      obtain ⟨hs', m', hm', -, hr'⟩ := Plant.matched_outside
        (a := .requestExport _ request.hash request.startSec request.endSec) hs hr rfl (by simp) hm
        fun id hex startSec endSec he => (Machine.Action.requestExport.inj he).1 ▸ hnew
      exact ⟨_, Option.map_eq_some_iff.mpr ⟨m', hm', rfl⟩, .intro m' evicted hs' hr'⟩
  | deliver =>
    simp only [Daemon.step] at h ⊢
    cases hq : s.daemon.toHttp with
    | nil => rw [hq] at h; cases h
    | cons signal q =>
      rw [hq] at h
      obtain rfl := Option.some.inj h
      cases signal with
      | statusChanged keyHex status url => exact ⟨_, rfl, .intro m evicted hs hr⟩
      | exportFinished requestId outputPath ok error =>
        simp only [Daemon.deliver, Listener.onExportFinished, hsame.1]
        cases hp : s.daemon.listener.pendingExports.lookup requestId with
        | none => exact ⟨_, rfl, .intro m evicted hs hr⟩
        | some p =>
          obtain ⟨hs', hr'⟩ :=
            matched_dropExport cfg (if ok then some outputPath else none) hs hr
          exact ⟨_, rfl, .intro _ evicted hs' hr'⟩
  | work => cases ha

theorem freshRequest_of_inside {p p' : Plant} {a : Plant.Action} (h : a.outside? = none) :
    Plant.FreshRequest ⟨p, a, p'⟩ := by
  cases a with
  | outside a => cases h
  | handle | thread | packager | exporter | downloadWrite | packageWrite | exportWrite => trivial

theorem exists_work {b : Machine.Action} {m' : Machine} (hb : b.internal = true)
    (hm : Machine.step cfg.processor b d.machine = some m') : ∃ evicted,
      Daemon.step cfg (.work b) d =
        some { d with machine := m', toHttp := d.toHttp ++ m'.emits, evicted } := by
  refine ⟨(d.evicted.filter fun hex => !b.packages hex) ++
    (Machine.removedForAnother d.machine m').filter fun hex =>
      decide (hex ∈ d.listener.mpdUrlCache), ?_⟩
  rw [Daemon.step, if_pos hb, hm]
  rfl

/-- A step of the processor or of an object is one of the daemon, or none. -/
theorem refines_processor {a : Plant.Action} {p : Plant} (hr : Refines s d)
    (ha : a.outside? = none) (h : Plant.step cfg.processor a s.plant = some p) :
    Refines (s.proceed p) d ∨ ∃ b d', Daemon.step cfg (.work b) d = some d' ∧
      Refines (s.proceed p) d' := by
  obtain ⟨m, evicted, hs, hr⟩ := hr
  obtain ⟨hs', ⟨-, hcalls, hr'⟩ | ⟨b, m', hb, hm', hcalls, hr'⟩⟩ :=
    Plant.matched hs hr h (freshRequest_of_inside ha)
  · have hemits : p.processor.emits = [] := by
      rw [Machine.emits, hcalls]
      rfl
    have hdaemon : { s.daemon with machine := m, evicted } =
        { (s.proceed p).daemon with machine := m, evicted } := by
      simp only [proceed, hemits, List.append_nil]
    rw [hdaemon]
    exact Or.inl (.intro m evicted hs' hr')
  · have hinternal : b.internal = true := by
      rw [ha, Plant.fromOutside] at hb
      by_contra hnot
      rw [if_neg hnot] at hb
      cases hb
    have hemits : m'.emits = p.processor.emits := by
      rw [Machine.emits, hcalls]
      rfl
    obtain ⟨evicted', hwork⟩ := exists_work hinternal
      (show Machine.step cfg.processor b { s.daemon with machine := m, evicted }.machine = some m'
        from hm')
    rw [hemits] at hwork
    exact Or.inr ⟨b, _, hwork, .intro m' evicted' hs' hr'⟩

theorem refined {a : Action} (hd : (Daemon.system cfg).Reachable (Daemon.start disk) d)
    (hr : Refines s d) (h : step cfg a s = some s')
    (hcount : s'.daemon.accepted.length ≤ 2 ^ 64) :
    (a.listener? = none ∧ Refines s' d) ∨
      ∃ b d', ofListener b = a.listener? ∧ Daemon.step cfg b d = some d' ∧ Refines s' d' := by
  cases a with
  | listener a =>
    obtain ⟨ha, hstep⟩ := Option.ite_none_left_eq_some.mp h
    obtain ⟨daemon, hdaemon, rfl⟩ := Option.map_eq_some_iff.mp hstep
    obtain ⟨d', hd', hr'⟩ :=
      refines_listener hd hr (Bool.eq_false_iff.mpr ha) hdaemon hcount
    exact Or.inr ⟨a, d', if_neg ha, hd', hr'⟩
  | processor a =>
    obtain ⟨ha, hstep⟩ := Option.ite_none_left_eq_some.mp h
    obtain ⟨p, hp, rfl⟩ := Option.map_eq_some_iff.mp hstep
    rcases refines_processor hr (Option.not_isSome_iff_eq_none.mp ha) hp with
      hr' | ⟨b, d', hd', hr'⟩
    · exact Or.inl ⟨rfl, hr'⟩
    · exact Or.inr ⟨.work b, d', rfl, hd', hr'⟩

theorem refinement (cfg : DaemonConfig) (disk : Disk) :
    System.Refinement (system cfg) (Daemon.system cfg) Refines
      (fun t => t.post.daemon.accepted.length ≤ 2 ^ 64) Action.listener? ofListener (start disk)
      (Daemon.start disk) where
  start := .intro _ [] (Plant.refinement cfg.processor disk).start.1
    (Plant.refinement cfg.processor disk).start.2
  step _ _ hd hr h hcount := refined hd hr h hcount

theorem accepted_le {a : Action} (h : step cfg a s = some s') :
    s.daemon.accepted.length ≤ s'.daemon.accepted.length := by
  cases a with
  | listener a =>
    obtain ⟨-, hstep⟩ := Option.ite_none_left_eq_some.mp h
    obtain ⟨daemon, hdaemon, rfl⟩ := Option.map_eq_some_iff.mp hstep
    exact (Daemon.accepted_suffix hdaemon).length_le
  | processor a =>
    obtain ⟨-, hstep⟩ := Option.ite_none_left_eq_some.mp h
    obtain ⟨p, -, rfl⟩ := Option.map_eq_some_iff.mp hstep
    exact Nat.le_refl _

theorem accepted_le_of_mem {tr : List (Transition Program Action)}
    (h : (system cfg).Run (start disk) tr s) {n : ℕ} (hcount : s.daemon.accepted.length ≤ n) :
    ∀ t ∈ tr, t.post.daemon.accepted.length ≤ n := by
  induction h with
  | nil => exact List.forall_mem_nil _
  | next hr hs ih =>
    exact List.forall_mem_cons.mpr ⟨hcount, ih ((accepted_le hs).trans hcount)⟩

/-- **The process is a daemon.** Every run of the listener and the processor with its worker
objects is, for all that the listener can tell, a run of the daemon with the same requests
and deliveries. -/
theorem program_refines {tr : List (Transition Program Action)}
    (h : (system cfg).Run (start disk) tr s) (hcount : s.daemon.accepted.length ≤ 2 ^ 64) :
    ∃ tr' d, (Daemon.system cfg).Run (Daemon.start disk) tr' d ∧
      System.shown ofListener tr' = System.shown Action.listener? tr ∧
      s.plant.Refines d.machine ∧ d.listener = s.daemon.listener ∧ d.toHttp = s.daemon.toHttp ∧
      d.accepted = s.daemon.accepted ∧ d.replies = s.daemon.replies ∧
      d.acked = s.daemon.acked ∧ d.heard = s.daemon.heard := by
  obtain ⟨tr', d, hrun, hshown, hr⟩ :=
    (refinement cfg disk).run h (accepted_le_of_mem h hcount)
  obtain ⟨m, evicted, -, hr⟩ := hr
  exact ⟨tr', _, hrun, hshown, hr, rfl, rfl, rfl, rfl, rfl, rfl⟩

/-! ## What the processor is promised -/

theorem nodup_requestIds {tr : List (Transition Program Action)}
    (h : (system cfg).Run (start disk) tr s) (hcount : s.daemon.accepted.length ≤ 2 ^ 64) :
    s.daemon.machine.requestIds.Nodup := by
  obtain ⟨d, hd, m, evicted, -, hr⟩ :=
    (refinement cfg disk).reach h (accepted_le_of_mem h hcount)
  have hids : m.requestIds = s.daemon.machine.requestIds := by
    obtain ⟨u, calls, rfl⟩ := hr.processor
    rfl
  rw [← hids]
  exact Daemon.requestIds_eq hd ▸ Daemon.nodup_ids hd hcount

theorem plant_outside {cfg : Config} {p : Plant} {a : Machine.Action} {m : Machine}
    (ha : a.internal = false) (hne : a ≠ .restart) (h : Machine.step cfg a p.processor = some m) :
    Plant.step cfg (.outside a) p = some { p with processor := m } := by
  rw [Plant.step, if_neg (Bool.eq_false_iff.mp ha), h]
  cases a with
  | restart => exact absurd rfl hne
  | post | access | requestExport | dropExport | handle | downloadWrite | downloadExit
  | packageWrite | packageExit | exportWrite | exportExit => rfl

theorem fresh_of_nodup {cfg : Config} {p p' : Plant} {a : Plant.Action}
    (h : Plant.step cfg a p = some p') (hids : p'.processor.requestIds.Nodup) :
    Plant.FreshRequest ⟨p, a, p'⟩ := by
  cases a with
  | outside a =>
    cases a with
    | requestExport id hex startSec endSec =>
      obtain rfl := Option.some.inj h
      exact (List.nodup_cons.mp hids).1
    | post | access | dropExport | handle | downloadWrite | downloadExit | packageWrite
    | packageExit | exportWrite | exportExit | restart => trivial
  | handle | thread | packager | exporter | downloadWrite | packageWrite | exportWrite => trivial

/-- A step of the process is one of the processor with its objects, or none. -/
theorem plant_step {a : Action} (h : step cfg a s = some s') :
    s'.plant = s.plant ∨ ∃ b, Plant.step cfg.processor b s.plant = some s'.plant ∧
      b ≠ .outside .restart := by
  cases a with
  | listener a =>
    obtain ⟨ha, hstep⟩ := Option.ite_none_left_eq_some.mp h
    obtain ⟨daemon, hdaemon, rfl⟩ := Option.map_eq_some_iff.mp hstep
    rcases Daemon.machine_quiet hdaemon (Bool.eq_false_iff.mpr ha) with he | ⟨b, hb, hne, hm⟩
    · refine Or.inl ?_
      simp only [plant, he]
    · exact Or.inr ⟨.outside b, plant_outside hb hne hm, by simpa using hne⟩
  | processor a =>
    obtain ⟨ha, hstep⟩ := Option.ite_none_left_eq_some.mp h
    obtain ⟨p, hp, rfl⟩ := Option.map_eq_some_iff.mp hstep
    refine Or.inr ⟨a, hp, ?_⟩
    rintro rfl
    exact ha rfl

/-- **What the processor is promised.** A run of the process is a run of the processor with its
objects, in which no export id comes twice. -/
theorem plant_runs {tr : List (Transition Program Action)}
    (h : (system cfg).Run (start disk) tr s) (hcount : s.daemon.accepted.length ≤ 2 ^ 64) :
    ∃ tr', (Plant.system cfg.processor).Run (Plant.start disk) tr' s.plant ∧
      ∀ t ∈ tr', Plant.FreshRequest t ∧ t.action ≠ .outside .restart := by
  induction h with
  | nil => exact ⟨[], .nil, List.forall_mem_nil _⟩
  | @next tr s s' a hr hs ih =>
    obtain ⟨tr', hrun, hall⟩ := ih ((accepted_le hs).trans hcount)
    rcases plant_step hs with he | ⟨b, hb, hne⟩
    · rw [he]
      exact ⟨tr', hrun, hall⟩
    · have hids : s'.plant.processor.requestIds.Nodup := nodup_requestIds (hr.next hs) hcount
      exact ⟨_, hrun.next hb, List.forall_mem_cons.mpr ⟨⟨fresh_of_nodup hb hids, hne⟩, hall⟩⟩

namespace Sample

/-- A recording that is fetched, packaged and downloaded again. -/
def served : List Action :=
  [.listener Daemon.Sample.post, .processor (.handle Machine.Sample.env Plant.Sample.probe),
    .listener .deliver, .processor (.thread 0 (.getFileByTime 5 0)),
    .processor (.thread 0 (.playStart true 0)), .processor (.downloadWrite 0 ⟨[1], true⟩),
    .processor (.thread 0 .test), .processor (.thread 0 (.getDownloadPos 100)),
    .processor (.thread 0 .stopGetFile), .processor (.thread 0 (.finalTest 0)),
    .processor (.handle Machine.Sample.env Plant.Sample.probe),
    .processor (.packageWrite 1 (Machine.Sample.package 0)),
    .processor (.packager 1 (.finished 0 .normalExit "")),
    .processor (.handle Machine.Sample.env Plant.Sample.probe), .listener .deliver,
    .listener .deliver, .listener (.downloadGet "00000000000000aa" .absent .absent),
    .processor (.handle Machine.Sample.env Plant.Sample.probe),
    .processor (.exportWrite 1 ⟨[2], true⟩), .processor (.exporter 1 (.finished 0 .normalExit "")),
    .processor (.handle Machine.Sample.env Plant.Sample.probe), .listener .deliver]

end Sample

theorem program_refines_served :
    ∃ h : ((system Daemon.Sample.config).replay (start {}) Sample.served).isSome = true,
      let r := ((system Daemon.Sample.config).replay (start {}) Sample.served).get h
      r.2.daemon.replies.length = 1 ∧
      ∃ tr' d, (Daemon.system Daemon.Sample.config).Run (Daemon.start {}) tr' d ∧
        System.shown ofListener tr' = System.shown Action.listener? r.1 ∧
        r.2.plant.Refines d.machine ∧ d.listener = r.2.daemon.listener ∧
        d.toHttp = r.2.daemon.toHttp ∧ d.accepted = r.2.daemon.accepted ∧
        d.replies = r.2.daemon.replies ∧ d.acked = r.2.daemon.acked ∧
        d.heard = r.2.daemon.heard :=
  ⟨by decide, by decide, program_refines (System.run_get _) (by decide)⟩

theorem plant_runs_served :
    ∃ h : ((system Daemon.Sample.config).replay (start {}) Sample.served).isSome = true,
      let r := ((system Daemon.Sample.config).replay (start {}) Sample.served).get h
      r.2.daemon.replies.length = 1 ∧
      ∃ tr', (Plant.system Daemon.Sample.config.processor).Run (Plant.start {}) tr' r.2.plant ∧
        ∀ t ∈ tr', Plant.FreshRequest t ∧ t.action ≠ .outside .restart :=
  ⟨by decide, by decide, plant_runs (System.run_get _) (by decide)⟩

end Program

end VisionPlayback
