import VisionPlayback.Http.Polling
import VisionPlayback.Processor.Exports
import VisionPlayback.Processor.Readiness

/-!
# Ready after an eviction

A pass that makes room for one key removes the packages of others and sends no
message about them.
-/

namespace VisionPlayback

open Lib Lib.Replica StreamCache

namespace Daemon

/-- Once every status on its way is delivered, a poll for a key that has lost its
package is not answered with ready. -/
def ReadyForgotten (d : Daemon) : Prop :=
  ∀ hex ∈ d.evicted, (Listener.handlePlaybackGet hex d.settled).status ≠ 200

/-- The pass of a slot comes to no other key that stands as ready. -/
def PassSparesReady (cfg : DaemonConfig) (t : Transition Daemon Action) : Prop :=
  ∀ env w key err q, t.action = .work (.handle env) →
    t.pre.machine.queue = .packageFinished w key true err :: q →
    ∀ k : PlaybackKey, k ≠ key → k.hex ∈ t.pre.listener.mpdUrlCache →
      t.pre.view k.hex = some .ready →
      ¬ (Attempts cfg.processor.maxDownloadsBytes env.evict
          ((t.pre.machine.beforeEvict key).skipKeys env) t.pre.machine.disk k.hex ∧
        (env.evict.remove k.hex).succeeds = true)

/-- No POST finds a manifest of a key that has lost its package and has not been
packaged since. -/
def PostsFindFresh (t : Transition Daemon Action) : Prop :=
  ∀ env r q, t.action = .work (.handle env) →
    t.pre.machine.queue = .playbackRequested r :: q →
    dashExists r.key t.pre.machine.disk = true → r.key.hex ∉ t.pre.evicted

/-- What carries the law along a run. -/
structure Fresh (d : Daemon) : Prop where
  view : ∀ hex ∈ d.evicted, d.view hex ≠ some .ready
  unfinished : ∀ hex ∈ d.evicted, ∀ w err, .packageFinished w ⟨hex⟩ true err ∉ d.machine.queue

variable {cfg : DaemonConfig} {d d' : Daemon}

theorem ready_iff_view {hex : String} (h : hex ≠ "") :
    (Listener.handlePlaybackGet hex d.settled).status = 200 ↔ d.view hex = some .ready := by
  rw [status_handlePlaybackGet hex d.settled h]
  unfold view
  cases d.settled.statusCache.lookup hex with
  | none => simp
  | some status => cases status <;> simp

theorem mem_removedForAnother {pre post : Machine} {hex : String} :
    hex ∈ Machine.removedForAnother pre post ↔
      .removed hex ∈ post.calls ∧ pre.finishing ≠ some hex := by
  unfold Machine.removedForAnother
  rw [List.mem_filterMap]
  constructor
  · intro ⟨c, hc, he⟩
    cases c with
    | removed hex' =>
      obtain ⟨hne, he⟩ := Option.ite_none_left_eq_some.mp he
      obtain rfl := Option.some.inj he
      exact ⟨hc, hne⟩
    | emit | auth | emplaceJob | startDownload | package | exportClip => cases he
  · intro ⟨hc, hne⟩
    exact ⟨_, hc, if_neg hne⟩

/-- A completion in the queue was there before, or its worker has just posted it. -/
theorem packageFinished_origin {b : Machine.Action} {m m' : Machine} {w : Nat} {k : PlaybackKey}
    {ok : Bool} {err : String} (hs : Machine.step cfg.processor b m = some m')
    (h : .packageFinished w k ok err ∈ m'.queue) : .packageFinished w k ok err ∈ m.queue ∨
      ∃ v, b = .packageExit v ok err ∧ v.key = k := by
  cases Machine.stepped hs with
  | handle hq hclock hd =>
    rw [hd.queue_eq] at h
    rw [hq]
    exact Or.inl (List.mem_cons_of_mem _ h)
  | post | access | requestExport | downloadExit | exportExit =>
    exact Or.inl (Machine.mem_of_enqueue h nofun)
  | @packageExit v ok' err' hw =>
    rcases List.mem_append.mp h with h | h
    · exact Or.inl h
    · have he := List.mem_singleton.mp h
      simp only [Event.packageFinished.injEq] at he
      obtain ⟨-, rfl, rfl, rfl⟩ := he
      exact Or.inr ⟨v, rfl, rfl⟩
  | dropExport | downloadWrite | packageWrite | exportWrite => exact Or.inl h
  | restart => cases h

theorem Fresh.quiet {a : Action} (hi : Fresh d) (h : step cfg a d = some d')
    (ha : a.works = false) : Fresh d' := by
  have hev : d'.evicted = d.evicted := by
    cases stepped h with
    | worked => cases ha
    | postRejected | downloadRejected | posted | dashGet | accepted | heard | unmatched
    | answered => rfl
  have hqueue : ∀ w k err, .packageFinished w k true err ∈ d'.machine.queue →
      .packageFinished w k true err ∈ d.machine.queue := by
    intro w k err he
    rcases machine_quiet h ha with hm | ⟨b, hin, -, hs⟩
    · rw [hm] at he
      exact he
    · rcases packageFinished_origin hs he with he | ⟨v, rfl, -⟩
      · exact he
      · cases hin
  constructor
  · intro hex hmem
    rw [hev] at hmem
    rw [view_quiet h ha]
    exact hi.view hex hmem
  · intro hex hmem w err he
    rw [hev] at hmem
    exact hi.unfinished hex hmem w err (hqueue _ _ _ he)

/-- A slot tells ready of a key whose manifest its request finds, or whose packaging
run has succeeded. -/
theorem ready_told {b : Machine.Action} {m m' : Machine} {hex : String}
    (hs : Machine.step cfg.processor b m = some m') (h : (hex, .ready) ∈ m'.told) :
    ∃ env e q, b = .handle env ∧ m.queue = e :: q ∧
      ((∃ r, e = .playbackRequested r ∧ r.key.hex = hex ∧ dashExists r.key m.disk = true) ∨
        ∃ w key err, e = .packageFinished w key true err ∧ key.hex = hex) := by
  obtain ⟨url, hc⟩ := Machine.mem_told h
  obtain ⟨env, e, q, rfl, hq, -, hcalled⟩ := Machine.called_of_step hs hc
  refine ⟨env, e, q, rfl, hq, ?_⟩
  generalize hce : Call.emit (.statusChanged hex .ready url) = c at hcalled
  cases hcalled with
  | @readyNow r hdash =>
    simp only [Call.emit.injEq, Signal.statusChanged.injEq] at hce
    exact Or.inl ⟨r, rfl, hce.1.symm, hdash⟩
  | @packaged w key err hjob =>
    simp only [Call.emit.injEq, Signal.statusChanged.injEq] at hce
    exact Or.inr ⟨w, key, err, rfl, hce.1.symm⟩
  | status hs =>
    simp only [Call.emit.injEq, Signal.statusChanged.injEq] at hce
    rw [← hce.2.1] at hs
    exact absurd hs (by decide)
  | auth | emplaceJob | startDownload | repackage | package | removed | exportClip
  | exportRefused | exportFinished => cases hce

/-- What a pass removes for another key has no job. -/
theorem removed_spec {b : Machine.Action} {m m' : Machine} {hex : String}
    (hs : Machine.step cfg.processor b m = some m')
    (h : hex ∈ Machine.removedForAnother m m') :
    ∃ env w key err q, b = .handle env ∧ m.queue = .packageFinished w key true err :: q ∧
      (⟨hex⟩ : PlaybackKey) ≠ key ∧ (⟨hex⟩ : PlaybackKey) ∉ m.activeJobs ∧
      Attempts cfg.processor.maxDownloadsBytes env.evict ((m.beforeEvict key).skipKeys env) m.disk
        hex ∧ (env.evict.remove hex).succeeds = true := by
  obtain ⟨hc, hfin⟩ := mem_removedForAnother.mp h
  obtain ⟨env, e, q, rfl, hq, -, hcalled⟩ := Machine.called_of_step hs hc
  cases hcalled with
  | @removed w key err _ hjob hmem =>
    have hne : (⟨hex⟩ : PlaybackKey) ≠ key := by
      rintro rfl
      exact hfin (by rw [Machine.finishing, hq])
    obtain ⟨hatt, hsucc⟩ := (mem_evictToCapacity_snd hex).mp hmem
    refine ⟨env, w, key, err, q, rfl, hq, hne, fun hj => hatt.2.1 ?_, hatt, hsucc⟩
    exact Machine.mem_skipKeys (Or.inl (AList.mem_erase.mpr ⟨hne, hj⟩))

/-- A key joins the list when a slot for another key removes its package, and leaves
it when it is packaged. -/
theorem mem_evicted {b : Machine.Action} (h : step cfg (.work b) d = some d') {hex : String} :
    hex ∈ d'.evicted ↔ (hex ∈ d.evicted ∧ b.packages hex = false) ∨
      (hex ∈ Machine.removedForAnother d.machine d'.machine ∧ hex ∈ d.listener.mpdUrlCache) := by
  cases stepped h with
  | worked hb hs => simp [List.mem_append, List.mem_filter]

theorem Fresh.work {b : Machine.Action} (hi : Fresh d) (ho : Machine.Ownership d.machine)
    (h : step cfg (.work b) d = some d') (hspares : PassSparesReady cfg ⟨d, .work b, d'⟩)
    (hposts : PostsFindFresh ⟨d, .work b, d'⟩) : Fresh d' := by
  obtain ⟨-, hs⟩ := machine_work h
  constructor
  · intro hex hin
    rw [view_work h]
    intro hready
    rcases (mem_evicted h).mp hin with ⟨hold, -⟩ | ⟨hnew, hurl⟩
    · rcases mem_or_of_hear hready with hready | htold
      · exact hi.view hex hold hready
      · obtain ⟨env, e, q, rfl, hq, ⟨r, rfl, rfl, hdash⟩ | ⟨w, key, err, rfl, rfl⟩⟩ :=
          ready_told hs htold
        · exact hposts env r q rfl hq hdash hold
        · exact hi.unfinished key.hex hold w err (hq ▸ List.mem_cons_self)
    · obtain ⟨env, w, key, err, q, rfl, hq, hne, -, hatt, hsucc⟩ := removed_spec hs hnew
      rcases mem_or_of_hear hready with hready | htold
      · exact hspares env w key err q rfl hq ⟨hex⟩ hne hurl hready ⟨hatt, hsucc⟩
      · -- the slot is the other key's, so it tells nothing of this one
        obtain ⟨env', e, q', -, hq', ⟨r, rfl, -, -⟩ | ⟨w', key', err', rfl, rfl⟩⟩ :=
          ready_told hs htold
        · cases hq.symm.trans hq'
        · cases hq.symm.trans hq'
          exact hne rfl
  · intro hex hin w err he
    rcases (mem_evicted h).mp hin with ⟨hold, hpack⟩ | ⟨hnew, -⟩
    · rcases packageFinished_origin hs he with he | ⟨v, rfl, hv⟩
      · exact hi.unfinished hex hold w err he
      · simp [Machine.Action.packages, hv] at hpack
    · obtain ⟨env, w', key, err', q, rfl, -, -, hjob, -⟩ := removed_spec hs hnew
      rcases packageFinished_origin hs he with he | ⟨v, hv, -⟩
      · have ht : Token.packaged w true ∈ d.machine.tokens ⟨hex⟩ :=
          Machine.mem_tokens_of_event he (if_pos rfl)
        obtain ⟨-, -, job, hj, -⟩ := ho.of_mem ht
        exact hjob (Table.mem_iff_lookup.mpr ⟨job, hj⟩)
      · cases hv

theorem Fresh.step {t : Transition Daemon Action} (hi : Fresh t.pre)
    (ho : Machine.Ownership t.pre.machine) (h : step cfg t.action t.pre = some t.post)
    (hspares : PassSparesReady cfg t) (hposts : PostsFindFresh t) : Fresh t.post := by
  obtain ⟨pre, a, post⟩ := t
  cases a with
  | work b => exact hi.work ho h hspares hposts
  | playbackPost | dashGet | downloadGet | deliver => exact hi.quiet h rfl

theorem Fresh.readyForgotten (hi : Fresh d) : ReadyForgotten d := by
  intro hex hmem hcode
  by_cases hne : hex = ""
  · rw [hne] at hcode
    cases hcode
  · exact hi.view hex hmem ((ready_iff_view hne).mp hcode)

/-- The slot of another key's completion that removes a ready package leaves the
listener with it. -/
theorem passSparesReady_of_forgotten {t : Transition Daemon Action}
    (ho : Machine.Ownership t.pre.machine) (h : step cfg t.action t.pre = some t.post)
    (hpost : ReadyForgotten t.post) : PassSparesReady cfg t := by
  intro env w key err q ha hq k hne hurl hready ⟨hatt, hsucc⟩
  rw [ha] at h
  have hm := Machine.packaged_of_step ho (machine_work h).2 hq
  have hne' : k.hex ≠ key.hex := fun he => hne (dashDir_inj he)
  have hremoved : .removed k.hex ∈ t.post.machine.calls :=
    (Machine.mem_calls_removed ho (machine_work h).2 hq).mpr ⟨hatt, hsucc⟩
  have hfin : t.pre.machine.finishing ≠ some k.hex := by
    rw [Machine.finishing, hq]
    exact fun he => hne' (Option.some.inj he).symm
  have hevicted : k.hex ∈ t.post.evicted :=
    (mem_evicted h).mpr (Or.inr ⟨mem_removedForAnother.mpr ⟨hremoved, hfin⟩, hurl⟩)
  have hnonempty : k.hex ≠ "" := by
    intro he
    have hhex := matchesHex16_of_attempts hatt
    rw [he] at hhex
    exact absurd hhex (by decide)
  have htold : t.post.machine.told = [(key.hex, .ready)] := by
    rw [hm, Machine.told_statusChanged, Machine.told_evict]
    rfl
  refine hpost k.hex hevicted ((ready_iff_view hnonempty).mpr ?_)
  rw [view_work h, htold, hear_cons, hear, List.foldl_nil, Function.update_of_ne hne']
  exact hready

/-- The slot of a POST that finds an evicted key's manifest tells ready of it. -/
theorem postsFindFresh_of_forgotten {t : Transition Daemon Action}
    (hn : Machine.Named t.pre.machine) (h : step cfg t.action t.pre = some t.post)
    (hpost : ReadyForgotten t.post) : PostsFindFresh t := by
  intro env r q ha hq hdash hold
  rw [ha] at h
  have hevicted : r.key.hex ∈ t.post.evicted := (mem_evicted h).mpr (Or.inl ⟨hold, rfl⟩)
  have hnonempty : r.key.hex ≠ "" := by
    intro he
    have hhex := hn.posts r (hq ▸ List.mem_cons_self)
    rw [he] at hhex
    exact absurd hhex (by decide)
  refine hpost r.key.hex hevicted ((ready_iff_view hnonempty).mpr ?_)
  rw [view_work h]
  obtain ⟨-, hs⟩ := machine_work h
  generalize t.post.machine = m' at hs
  cases Machine.stepped hs with
  | handle hq' hclock hd =>
    cases hq.symm.trans hq'
    cases hd with
    | playbackRequested hreq =>
      cases hreq with
      | ready hdash' =>
        rw [Machine.told_statusChanged]
        exact Function.update_self _ _ _
      | active hdash' | refused hdash' | shortcut hdash' | download hdash' =>
        exact absurd (hdash.symm.trans hdash') (by decide)

theorem readyForgotten_iff {disk : Disk} {tr : List (Transition Daemon Action)}
    (h : (system cfg).Run (start disk) tr d) : (∀ t ∈ tr, ReadyForgotten t.post) ↔
      ∀ t ∈ tr, PassSparesReady cfg t ∧ PostsFindFresh t := by
  constructor
  · intro hall t ht
    obtain ⟨hr, hs⟩ := h.transition ht
    have hm := machine_reachable hr
    exact ⟨passSparesReady_of_forgotten (Machine.ownership hm) hs (hall t ht),
      postsFindFresh_of_forgotten (Machine.named hm) hs (hall t ht)⟩
  · intro hall t ht
    have hrun := h.invariant_of (I := fun d => Machine.Ownership d.machine ∧ Fresh d)
      (C := fun t => PassSparesReady cfg t ∧ PostsFindFresh t) hall
      ⟨fun _ => .idle, fun _ h => (by cases h), fun _ h => (by cases h)⟩ ?_
    · exact (hrun.2 t ht).2.2.readyForgotten
    · rintro t ⟨ho, hi⟩ hs ⟨hspares, hposts⟩
      refine ⟨?_, hi.step ho hs hspares hposts⟩
      rcases machine_step hs with hm | ⟨b, -, hs'⟩
      · rw [hm]
        exact ho
      · exact ho.step hs'

namespace Sample

/-- Room for one package, and a digest that tells recordings by their last digit. -/
def pairConfig : DaemonConfig where
  http := { config.http with
    hasher := {
      hexDigest := fun s =>
        if s.toList.getLast? = some '9' then "00000000000000aa" else "00000000000000bb"
      digits := fun s => by split <;> decide
      long := fun s => by split <;> decide } }
  processor := { Machine.Sample.config with maxDownloadsBytes := 150 }

def otherBody : Table String JsonValue := body.insert "end_time" (.string "20240101T000008")

/-- The downloader of a recording that ends at the given second. -/
def downloader (id : Nat) (second : UInt8) (hex : String) : Downloader :=
  ⟨id, {
    credentials := { ip := "10.0.0.1", user := "admin", pass := "" }
    token := 7
    channel := { id := 1 }
    range := ⟨{ year := 2024, month := 1, day := 1 },
      { year := 2024, month := 1, day := 1, second }⟩
    key := ⟨hex⟩ }, mp4Path ⟨hex⟩⟩

/-- What follows a POST until the package of its recording is announced. -/
def playback (id : Nat) (second : UInt8) (hex : String) (lastModified : Int) : List Action :=
  [.work (.handle Machine.Sample.env), .work (.downloadExit (downloader id second hex) true ""),
    .work (.handle Machine.Sample.env),
    .work (.packageWrite (Machine.Sample.packager (id + 1) hex)
      (Machine.Sample.package lastModified)),
    .work (.packageExit (Machine.Sample.packager (id + 1) hex) true ""),
    .work (.handle Machine.Sample.env)]

/-- A recording is packaged and the listener hears so; then another one is. -/
def secondRecording : List Action :=
  [post] ++ playback 0 9 "00000000000000aa" 0 ++ [.deliver, .deliver, .deliver] ++
    [.playbackPost (utf8 "key") (some otherBody)] ++ playback 2 8 "00000000000000bb" 1

end Sample

theorem readyForgotten_iff_secondRecording :
    ∃ h : ((system Sample.pairConfig).replay (start {}) Sample.secondRecording).isSome = true,
      (∀ t ∈ (((system Sample.pairConfig).replay (start {}) Sample.secondRecording).get h).1,
        ReadyForgotten t.post) ↔
      ∀ t ∈ (((system Sample.pairConfig).replay (start {}) Sample.secondRecording).get h).1,
        PassSparesReady Sample.pairConfig t ∧ PostsFindFresh t :=
  ⟨by decide, readyForgotten_iff (System.run_get _)⟩

/-- The first recording's package is removed to make room for the second one's. -/
theorem not_readyForgotten : ¬ ∀ (cfg : DaemonConfig) (disk : Disk) (d : Daemon),
    (system cfg).Reachable (start disk) d → ReadyForgotten d := by
  intro hall
  have hsome : ((system Sample.pairConfig).replay (start {}) Sample.secondRecording).isSome =
      true := by
    decide
  have h := hall _ _ _ (System.run_get hsome).reachable "00000000000000aa" (by decide +revert)
  exact absurd h (by decide +revert)

end Daemon

end VisionPlayback
