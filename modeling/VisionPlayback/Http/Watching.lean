import VisionPlayback.Http.Downloads
import VisionPlayback.Http.Staleness

/-!
# Streams that are being watched

The listener serves a file on its own thread and tells the processor by a message.
Both read one clock. What is served is protected from the moment the processor
handles the message, and not before.
-/

namespace VisionPlayback

open Lib StreamCache

/-- A file below the directory `hex` has been served. -/
structure Watch where
  hex : String
  time : Int
  deriving DecidableEq

/-- The daemon under one clock. -/
structure Clocked where
  daemon : Daemon
  now : Int
  watched : List Watch := []

namespace Clocked

structure Action where
  time : Int
  act : Daemon.Action

/-- A slot reads the time at which it runs. -/
def reads (time : Int) : Daemon.Action → Bool
  | .work (.handle env) => env.nowMs = time
  | .work _ | .playbackPost _ _ | .dashGet _ _ | .downloadGet _ _ _ | .deliver => true

/-- The directory a request is served from. -/
def serves (d : Daemon) : Daemon.Action → Option String
  | .dashGet dir name =>
    if (Listener.serveStaticFile dir name d.machine.disk).status = 200 then some dir else none
  | .work _ | .playbackPost _ _ | .downloadGet _ _ _ | .deliver => none

def step (cfg : DaemonConfig) (a : Action) (c : Clocked) : Option Clocked :=
  if c.now ≤ a.time ∧ reads a.time a.act then
    (Daemon.step cfg a.act c.daemon).map fun daemon =>
      { daemon
        now := a.time
        watched := ((serves c.daemon a.act).map (⟨·, a.time⟩)).toList ++ c.watched }
  else none

def system (cfg : DaemonConfig) : System Clocked Action := ⟨step cfg⟩

def start (disk : Disk) (now : Int) : Clocked := { daemon := Daemon.start disk, now }

/-- A pass removes no package that has been watched within the window. -/
def SparesWatched (t : Transition Clocked Action) : Prop :=
  ∀ env, t.action.act = .work (.handle env) → ∀ w ∈ t.pre.watched,
    t.action.time ≤ w.time + Machine.kAccessTtlMs →
    .removed w.hex ∉ t.post.daemon.machine.calls

/-- A pass comes to no package with an access message that still waits behind it. -/
def AccessesSeen (cfg : DaemonConfig) (t : Transition Clocked Action) : Prop :=
  ∀ env id key err q, t.action.act = .work (.handle env) →
    t.pre.daemon.machine.queue = .packageFinished id key true err :: q →
    ∀ w ∈ t.pre.watched, t.action.time ≤ w.time + Machine.kAccessTtlMs →
    .keyAccessed w.hex ∈ q →
    ¬ (Attempts cfg.processor.maxDownloadsBytes env.evict
        ((t.pre.daemon.machine.beforeEvict key).skipKeys env) t.pre.daemon.machine.disk w.hex ∧
      (env.evict.remove w.hex).succeeds = true)

variable {cfg : DaemonConfig} {c c' : Clocked}

theorem stepped {a : Action} (h : step cfg a c = some c') :
    c.now ≤ a.time ∧ reads a.time a.act = true ∧
      Daemon.step cfg a.act c.daemon = some c'.daemon ∧ c'.now = a.time ∧
      c'.watched = ((serves c.daemon a.act).map (⟨·, a.time⟩)).toList ++ c.watched := by
  obtain ⟨⟨hnow, hreads⟩, hs⟩ := Option.ite_none_right_eq_some.mp h
  obtain ⟨daemon, hd, rfl⟩ := Option.map_eq_some_iff.mp hs
  exact ⟨hnow, hreads, hd, rfl, rfl⟩

theorem simulates (cfg : DaemonConfig) :
    (system cfg).Simulates (Daemon.system cfg) (·.daemon) :=
  fun _ _ _ h => Or.inr ⟨_, (stepped h).2.2.1⟩

theorem ownership {disk : Disk} {now : Int} (h : (system cfg).Reachable (start disk now) c) :
    Machine.Ownership c.daemon.machine :=
  Machine.ownership (Daemon.machine_reachable ((simulates cfg).reachable h))

/-! ## What the processor knows of a watch -/

/-- The message is on its way, the access is stamped no earlier than the watch, or the
window of the watch is over. -/
def Noted (m : Machine) (now : Int) (w : Watch) : Prop :=
  .keyAccessed w.hex ∈ m.queue ∨
    (∃ accessMs, m.lastAccessMs.lookup w.hex = some accessMs ∧ w.time ≤ accessMs) ∨
    w.time + Machine.kAccessTtlMs < now

variable {m m' : Machine} {now now' : Int} {w : Watch}

theorem Noted.mono (h : Noted m now w) (hq : ∀ e ∈ m.queue, e ∈ m'.queue)
    (ha : m'.lastAccessMs = m.lastAccessMs) (hnow : now ≤ now') : Noted m' now' w := by
  rcases h with h | h | h
  · exact Or.inl (hq _ h)
  · rw [← ha] at h
    exact Or.inr (Or.inl h)
  · exact Or.inr (Or.inr (h.trans_le hnow))

/-- Only an access and a pass touch the stamps. -/
theorem lastAccessMs_of_dispatched {cfg : Config} {env : Env} {e : Event}
    (h : Machine.Dispatched cfg env m m' e) :
    m'.lastAccessMs = m.lastAccessMs ∨
      (∃ hex, e = .keyAccessed hex ∧
        m'.lastAccessMs = m.lastAccessMs.insert hex env.nowMs) ∨
      m'.lastAccessMs = m.lastAccessMs.retain (Machine.recentlyAccessed env.nowMs) := by
  cases h with
  | playbackRequested hs => cases hs <;> exact Or.inl rfl
  | @keyAccessed hex hs =>
    rw [hs]
    exact Or.inr (Or.inl ⟨hex, rfl, rfl⟩)
  | exportRequested hs => cases hs <;> exact Or.inl rfl
  | downloadFinished hs => cases hs <;> exact Or.inl rfl
  | packageFinished hs =>
    cases hs with
    | ignored | failed => exact Or.inl rfl
    | ready => exact Or.inr (Or.inr rfl)
  | exportDone hs => cases hs <;> exact Or.inl rfl

theorem Noted.dispatched {cfg : Config} {env : Env} {e : Event} {q : List Event}
    (hn : Noted m now w) (hq : m.queue = e :: q)
    (h : Machine.Dispatched cfg env (m.popped env q) m' e) (htime : w.time ≤ now)
    (hnow : now ≤ env.nowMs) : Noted m' env.nowMs w := by
  have hqueue : m'.queue = q := h.queue_eq
  have hstamps := lastAccessMs_of_dispatched h
  rw [show (m.popped env q).lastAccessMs = m.lastAccessMs from rfl] at hstamps
  rcases hn with hmsg | ⟨accessMs, ha, hle⟩ | hover
  · -- the message that is handled leaves a stamp, any other one stays in the queue
    rw [hq] at hmsg
    rcases List.mem_cons.mp hmsg with rfl | hmsg
    · cases h with
      | keyAccessed hs =>
        obtain rfl := hs
        exact Or.inr (Or.inl ⟨env.nowMs, AList.lookup_insert _, htime.trans hnow⟩)
    · rw [← hqueue] at hmsg
      exact Or.inl hmsg
  · rcases hstamps with he | ⟨hex, rfl, he⟩ | he
    · rw [← he] at ha
      exact Or.inr (Or.inl ⟨accessMs, ha, hle⟩)
    · have hlookup := Table.lookup_insert_eq m.lastAccessMs hex w.hex env.nowMs
      by_cases hhex : w.hex = hex
      · rw [if_pos hhex] at hlookup
        exact Or.inr (Or.inl ⟨env.nowMs, he ▸ hlookup, htime.trans hnow⟩)
      · rw [if_neg hhex, ha] at hlookup
        exact Or.inr (Or.inl ⟨accessMs, he ▸ hlookup, hle⟩)
    · by_cases hrecent : env.nowMs - accessMs ≤ Machine.kAccessTtlMs
      · refine Or.inr (Or.inl ⟨accessMs, ?_, hle⟩)
        have hlookup : m'.lastAccessMs.lookup w.hex = _ :=
          he ▸ Table.lookup_retain (Machine.recentlyAccessed env.nowMs) m.lastAccessMs w.hex
        rw [hlookup, ha, Option.filter_some, Machine.recentlyAccessed, decide_eq_true hrecent,
          if_pos rfl]
      · -- a stamp that is pruned is past the window, and so is the watch
        refine Or.inr (Or.inr ?_)
        omega
  · exact Or.inr (Or.inr (hover.trans_le hnow))

/-- Every watch is noted, and none lies ahead of the clock. -/
def Noting (c : Clocked) : Prop :=
  ∀ w ∈ c.watched, w.time ≤ c.now ∧ Noted c.daemon.machine c.now w

/-- What is served is noted by the message that follows it. -/
theorem noted_serves {a : Daemon.Action} {d d' : Daemon} {hex : String}
    (h : Daemon.step cfg a d = some d') (hserves : serves d a = some hex) :
    .keyAccessed hex ∈ d'.machine.queue := by
  cases Daemon.stepped h with
  | dashGet hs =>
    obtain ⟨-, he⟩ := Option.ite_none_right_eq_some.mp hserves
    obtain rfl := Option.some.inj he
    cases Machine.stepped hs with
    | access => exact List.mem_append_right _ List.mem_cons_self
  | postRejected | posted | downloadRejected | accepted | heard | unmatched | answered
  | worked => cases hserves

/-- Outside the slots the queue grows at most, and the stamps are let alone. -/
theorem Noted.quiet {b : Machine.Action} (hn : Noted m now w) {cfg : Config}
    (h : Machine.step cfg b m = some m') (hb : ∀ env, b ≠ .handle env) (hr : b ≠ .restart)
    (hnow : now ≤ now') : Noted m' now' w := by
  cases Machine.stepped h with
  | handle => exact absurd rfl (hb _)
  | restart => exact absurd rfl hr
  | post | access | requestExport | downloadExit | packageExit | exportExit =>
    exact hn.mono (fun e he => List.mem_append_left _ he) rfl hnow
  | dropExport | downloadWrite | packageWrite | exportWrite =>
    exact hn.mono (fun e he => he) rfl hnow

theorem Noted.step {a : Action} (hn : Noted c.daemon.machine c.now w) (htime : w.time ≤ c.now)
    (h : step cfg a c = some c') : Noted c'.daemon.machine c'.now w := by
  obtain ⟨hnow, hreads, hd, hclock, -⟩ := stepped h
  rw [hclock]
  cases hact : a.act with
  | work b =>
    rw [hact] at hd hreads
    obtain ⟨hb, hs⟩ := Daemon.machine_work hd
    by_cases hslot : ∃ env, b = .handle env
    · obtain ⟨env, rfl⟩ := hslot
      have henv : env.nowMs = a.time := of_decide_eq_true hreads
      cases Machine.stepped hs with
      | handle hq _ hdisp =>
        rw [← henv] at hnow ⊢
        exact hn.dispatched hq hdisp htime hnow
    · refine hn.quiet hs (not_exists.mp hslot) ?_ hnow
      rintro rfl
      cases hb
  | playbackPost | dashGet | downloadGet | deliver =>
    rw [hact] at hd
    rcases Daemon.machine_quiet hd rfl with he | ⟨b, hb, hr, hs⟩
    · rw [he]
      exact hn.mono (fun _ he => he) rfl hnow
    · refine hn.quiet hs ?_ hr hnow
      rintro env rfl
      cases hb

theorem Noting.step {a : Action} (hi : Noting c) (h : step cfg a c = some c') : Noting c' := by
  obtain ⟨hnow, -, hd, hclock, hwatched⟩ := stepped h
  intro w hw
  rw [hwatched] at hw
  rcases List.mem_append.mp hw with hnew | hold
  · obtain ⟨hex, hserves, rfl⟩ := Option.map_eq_some_iff.mp (Option.mem_toList.mp hnew)
    exact ⟨hclock.ge, Or.inl (noted_serves hd hserves)⟩
  · obtain ⟨htime, hn⟩ := hi w hold
    exact ⟨by omega, hn.step htime h⟩

theorem noting {disk : Disk} {now : Int} (h : (system cfg).Reachable (start disk now) c) :
    Noting c :=
  h.invariant (I := Noting) (fun _ hw => nomatch hw) fun _ _ _ hi hs => hi.step hs

/-! ## Passes -/

/-- The passes of a run spare what is being watched exactly when they come to no package
whose access message waits behind them. -/
theorem sparesWatched_iff {disk : Disk} {now : Int} {tr : List (Transition Clocked Action)}
    (h : (system cfg).Run (start disk now) tr c) :
    ∀ t ∈ tr, SparesWatched t ↔ AccessesSeen cfg t := by
  intro t ht
  obtain ⟨hr, hs⟩ := h.transition ht
  obtain ⟨hnow, hreads, hd, -, -⟩ := stepped hs
  have hown := ownership hr
  constructor
  · intro hspares env id key err q ha hq w hw hrecent _ hreach
    rw [ha] at hd
    exact hspares env ha w hw hrecent
      ((Machine.mem_calls_removed hown (Daemon.machine_work hd).2 hq).mpr hreach)
  · intro hseen env ha w hw hrecent hremoved
    rw [ha] at hd hreads
    have hm := (Daemon.machine_work hd).2
    have henv : env.nowMs = t.action.time := of_decide_eq_true hreads
    obtain ⟨env', e, q, he, hq, -, hcalled⟩ := Machine.called_of_step hm hremoved
    cases hcalled with
    | @removed id key err _ hjob hmem =>
      cases he
      have hreach := (Machine.mem_calls_removed hown hm hq).mp hremoved
      obtain ⟨htime, hmsg | ⟨accessMs, hstamp, hle⟩ | hover⟩ := noting hr w hw
      · rw [hq] at hmsg
        have hwait : .keyAccessed w.hex ∈ q :=
          (List.mem_cons.mp hmsg).resolve_left fun he => by cases he
        exact hseen env id key err q ha hq w hw hrecent hwait hreach
      · -- a stamp within the window puts the key into the skip list
        refine hreach.1.2.1 (Machine.mem_skipKeys_of_access hstamp ?_)
        omega
      · omega

namespace Sample

/-- A package from an earlier run is fetched from while the completion of another
recording already waits. -/
def fetchedLate : List Daemon.Action :=
  [.playbackPost (utf8 "key") (some Daemon.Sample.otherBody), .work (.handle Machine.Sample.env),
    .work (.downloadExit (Daemon.Sample.downloader 0 8 "00000000000000bb") true ""),
    .work (.handle Machine.Sample.env),
    .work (.packageWrite (Machine.Sample.packager 1 "00000000000000bb") (Machine.Sample.package 1)),
    .work (.packageExit (Machine.Sample.packager 1 "00000000000000bb") true ""),
    .dashGet "00000000000000aa" "manifest.mpd", .work (.handle Machine.Sample.env)]

def watching : List Action := fetchedLate.map (⟨0, ·⟩)

end Sample

theorem sparesWatched_iff_watching :
    ∃ h : ((system Daemon.Sample.pairConfig).replay (start Daemon.Sample.packaged 0)
        Sample.watching).isSome = true,
      ∀ t ∈ (((system Daemon.Sample.pairConfig).replay (start Daemon.Sample.packaged 0)
          Sample.watching).get h).1,
        SparesWatched t ↔ AccessesSeen Daemon.Sample.pairConfig t :=
  ⟨by decide, sparesWatched_iff (System.run_get _)⟩

theorem not_sparesWatched : ¬ ∀ (cfg : DaemonConfig) (disk : Disk) (now : Int)
    (tr : List (Transition Clocked Action)) (c : Clocked),
    (system cfg).Run (start disk now) tr c → ∀ t ∈ tr, SparesWatched t := by
  intro hall
  have hsome : ((system Daemon.Sample.pairConfig).replay (start Daemon.Sample.packaged 0)
    Sample.watching).isSome = true := by decide
  have hne : (((system Daemon.Sample.pairConfig).replay (start Daemon.Sample.packaged 0)
    Sample.watching).get hsome).1 ≠ [] := by decide +revert
  refine hall _ _ _ _ _ (System.run_get hsome) _ (List.head_mem hne) Machine.Sample.env rfl
    ⟨"00000000000000aa", 0⟩ (by decide +revert) (by decide +revert) (by decide +revert)

end Clocked

end VisionPlayback
