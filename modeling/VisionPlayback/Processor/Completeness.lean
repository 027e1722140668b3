import VisionPlayback.Processor.History

/-!
# What is served and what is packaged

Two slots take a manifest on disk for a complete package, and one takes a raw
file on disk for a complete download. A run that is under way, has failed or was
cut off may have left either.
-/

namespace VisionPlayback

open Lib StreamCache

/-- A request that is answered from the package of `k`. -/
def Event.Wants (k : PlaybackKey) : Event → Prop
  | .playbackRequested request => request.key = k
  | .exportRequested _ keyHex _ _ => keyHex = k.hex
  | _ => False

namespace Machine

/-- The step announces `k` as ready, or starts an exporter on its manifest. -/
def Serves (k : PlaybackKey) (t : Transition Machine Action) : Prop :=
  (∃ url, .emit (.statusChanged k.hex .ready url) ∈ t.post.calls) ∨
    ∃ w, .exportClip w ∈ t.post.calls ∧ w.mpdPath = manifestPath k

/-- What the step serves is complete: the latest packaging run succeeded and none
is under way. -/
def ServesComplete (t : Transition Machine Action) : Prop :=
  ∀ k, Serves k t → t.post.lastPackage k = some .succeeded ∧ ¬ t.post.Packaging k

/-- No packaging run of `k` is under way, and the latest one neither failed nor
was cut off by a restart. -/
def PackageSettled (m : Machine) (k : PlaybackKey) : Prop :=
  ¬ m.Packaging k ∧ m.lastPackage k ≠ some .failed ∧ m.lastPackage k ≠ some .interrupted

/-- A POST or an export request that finds a manifest finds a settled one. -/
def RequestsSettled (t : Transition Machine Action) : Prop :=
  ∀ env e q k, t.action = .handle env → t.pre.queue = e :: q → e.Wants k →
    dashExists k t.pre.disk = true → PackageSettled t.pre k

/-- Each packager is started on the latest download of its key, and that download
succeeded. -/
def PackagesComplete (t : Transition Machine Action) : Prop :=
  ∀ w, .package w ∈ t.post.calls → w.mp4Path = mp4Path w.key ∧ w.outputDir = dashDir w.key ∧
    t.post.lastDownload w.key = some .succeeded

/-- A POST that takes a raw file on disk for its download does not find one that a
failed or interrupted download left. -/
def ShortcutsSettled (cfg : Config) (t : Transition Machine Action) : Prop :=
  ∀ env r q, t.action = .handle env → t.pre.queue = .playbackRequested r :: q →
    dashExists r.key t.pre.disk = false → r.key ∉ t.pre.activeJobs →
    ¬ (LoginUseCase.ensureLoggedIn cfg.loginIdle env.login r.credentials t.pre.loginCache).1 < 0 →
    mp4Exists r.key t.pre.disk = true →
    t.pre.lastDownload r.key ≠ some .failed ∧ t.pre.lastDownload r.key ≠ some .interrupted

variable {cfg : Config} {env : Env} {m m' : Machine} {k : PlaybackKey} {e : Event} {q : List Event}
  {c : Call}

theorem manifestPath_inj {k k' : PlaybackKey} (h : manifestPath k = manifestPath k') : k = k' :=
  dashDir_inj ((String.append_left_inj "/manifest.mpd").mp h)

theorem hex_inj {k k' : PlaybackKey} (h : k.hex = k'.hex) : k = k' := dashDir_inj h

/-- A request that finds a manifest is served at once, and changes no record. -/
theorem serves_of_wants (h : Dispatched cfg env m m' e) (hw : e.Wants k)
    (hdash : dashExists k m.disk = true) :
    ((∃ url, .emit (.statusChanged k.hex .ready url) ∈ m'.calls) ∨
      ∃ w, .exportClip w ∈ m'.calls ∧ w.mpdPath = manifestPath k) ∧
    m'.lastPackage = m.lastPackage ∧ m'.packagers = m.packagers := by
  cases h with
  | playbackRequested hs =>
    obtain rfl := hw
    cases hs with
    | ready => exact ⟨Or.inl ⟨_, List.mem_append_right _ List.mem_cons_self⟩, rfl, rfl⟩
    | active hno | refused hno | shortcut hno | download hno => rw [hdash] at hno; cases hno
  | @exportRequested requestId keyHex startSec endSec hs =>
    have hk : (⟨keyHex⟩ : PlaybackKey) = k := hex_inj hw
    subst hk
    cases hs with
    | notReady hno => rw [hdash] at hno; cases hno
    | started => exact ⟨Or.inr ⟨_, List.mem_append_right _ List.mem_cons_self, rfl⟩, rfl, rfl⟩
  | keyAccessed | downloadFinished | packageFinished | exportDone => exact hw.elim

/-- A step serves a package for a request that finds a manifest, or because a
packaging run has succeeded. -/
theorem wants_of_serves (h : Called cfg env m e c)
    (hc : (∃ url, c = .emit (.statusChanged k.hex .ready url)) ∨
      ∃ w, c = .exportClip w ∧ w.mpdPath = manifestPath k) :
    (e.Wants k ∧ dashExists k m.disk = true) ∨ ∃ w err, e = .packageFinished w k true err := by
  cases h with
  | readyNow hdash =>
    obtain ⟨url, hc⟩ | ⟨w, hc, -⟩ := hc
    · simp only [Call.emit.injEq, Signal.statusChanged.injEq] at hc
      obtain rfl := hex_inj hc.1
      exact Or.inl ⟨rfl, hdash⟩
    · cases hc
  | packaged hjob =>
    obtain ⟨url, hc⟩ | ⟨w, hc, -⟩ := hc
    · simp only [Call.emit.injEq, Signal.statusChanged.injEq] at hc
      obtain rfl := hex_inj hc.1
      exact Or.inr ⟨_, _, rfl⟩
    · cases hc
  | @exportClip requestId keyHex startSec endSec hdash =>
    obtain ⟨url, hc⟩ | ⟨w, hc, hpath⟩ := hc
    · cases hc
    · obtain rfl := Call.exportClip.inj hc
      obtain rfl : (⟨keyHex⟩ : PlaybackKey) = k := manifestPath_inj hpath
      exact Or.inl ⟨rfl, hdash⟩
  | status hs =>
    obtain ⟨url, hc⟩ | ⟨w, hc, -⟩ := hc
    · simp only [Call.emit.injEq, Signal.statusChanged.injEq] at hc
      rw [hc.2.1] at hs
      exact absurd hs (by decide)
    · cases hc
  | auth | emplaceJob | startDownload | repackage | package | removed | exportRefused
  | exportFinished =>
    obtain ⟨url, hc⟩ | ⟨w, hc, -⟩ := hc <;> cases hc

/-- A settled package that is on disk comes from a run that succeeded. -/
theorem Packages.succeeded (hi : Packages m) (hdash : dashExists k m.disk = true)
    (hs : PackageSettled m k) : m.lastPackage k = some .succeeded := by
  have hknown : m.lastPackage k ≠ none := hi.known k (Or.inr (mem_dirs_of_dashExists hdash))
  have hlive : m.lastPackage k ≠ some .running := fun h => hs.1 (hi.live k h)
  cases ho : m.lastPackage k with
  | none => exact absurd ho hknown
  | some o =>
    cases o with
    | running => exact absurd ho hlive
    | succeeded => rfl
    | failed => exact absurd ho hs.2.1
    | interrupted => exact absurd ho hs.2.2

/-- A packaging run whose success is queued is the latest, and none is under way. -/
theorem Recorded.packaged (hi : Recorded m) {w : Nat} {err : String}
    (hq : m.queue = .packageFinished w k true err :: q) :
    m.lastPackage k = some .succeeded ∧ ¬ m.Packaging k := by
  have hmem : Event.packageFinished w k true err ∈ m.queue := by rw [hq]; exact List.mem_cons_self
  refine ⟨hi.packages.posted k true ⟨w, err, hmem⟩, ?_⟩
  rintro ⟨v, hv, rfl⟩
  have ht := mem_tokens_of_event hmem (if_pos rfl)
  rw [(hi.owned.of_mem (mem_tokens_of_packager hv)).1] at ht
  cases List.mem_singleton.mp ht

theorem packageFinished_frame {w : Nat} {err : String} {key : PlaybackKey}
    (h : Dispatched cfg env m m' (.packageFinished w key true err)) :
    m'.lastPackage = m.lastPackage ∧ m'.packagers = m.packagers := by
  cases h with
  | packageFinished hs => cases hs <;> exact ⟨rfl, rfl⟩

/-- Whatever is served is complete exactly when the requests that find a manifest
find a settled one. -/
theorem servesComplete_iff {tr : List (Transition Machine Action)}
    (h : (system cfg).Run (start {}) tr m) : ∀ t ∈ tr, ServesComplete t ↔ RequestsSettled t := by
  intro t ht
  obtain ⟨hr, hstep⟩ := h.transition ht
  have hi : Recorded t.pre := recorded hr
  constructor
  · intro hp env e q k ha hq hw hdash
    rw [show (system cfg).step = step cfg from rfl, ha] at hstep
    cases stepped hstep with
    | handle hq' hclock hs =>
      obtain ⟨rfl, rfl⟩ := List.cons.inj (hq.symm.trans hq')
      obtain ⟨hserves, hl, hd⟩ := serves_of_wants hs hw hdash
      obtain ⟨hlast, hrun⟩ := hp k hserves
      have hl : t.post.lastPackage = t.pre.lastPackage := hl
      have hd : t.post.packagers = t.pre.packagers := hd
      rw [hl] at hlast
      unfold Packaging at hrun
      rw [hd] at hrun
      exact ⟨hrun, by rw [hlast]; decide, by rw [hlast]; decide⟩
  · intro hc k hserves
    have hcall : ∃ c ∈ t.post.calls, (∃ url, c = .emit (.statusChanged k.hex .ready url)) ∨
        ∃ w, c = .exportClip w ∧ w.mpdPath = manifestPath k := by
      rcases hserves with ⟨url, hmem⟩ | ⟨w, hmem, hpath⟩
      · exact ⟨_, hmem, Or.inl ⟨url, rfl⟩⟩
      · exact ⟨_, hmem, Or.inr ⟨w, rfl, hpath⟩⟩
    obtain ⟨c, hmem, hc'⟩ := hcall
    obtain ⟨env, e, q, ha, hq, hs, hcalled⟩ := called_of_step hstep hmem
    rcases wants_of_serves hcalled hc' with ⟨hw, hdash⟩ | ⟨w, err, rfl⟩
    · have hset : PackageSettled t.pre k := hc env e q k ha hq hw hdash
      obtain ⟨-, hl, hd⟩ := serves_of_wants hs hw hdash
      have hl : t.post.lastPackage = t.pre.lastPackage := hl
      have hd : t.post.packagers = t.pre.packagers := hd
      unfold Packaging
      rw [hl, hd]
      exact ⟨hi.packages.succeeded hdash hset, hset.1⟩
    · obtain ⟨hl, hd⟩ := packageFinished_frame hs
      have hl : t.post.lastPackage = t.pre.lastPackage := hl
      have hd : t.post.packagers = t.pre.packagers := hd
      unfold Packaging
      rw [hl, hd]
      exact hi.packaged hq

/-- The packager's manifest passes for complete while the packager still runs, and
a second POST finds it. -/
def postWhilePackaging : List Action :=
  [.post (Sample.request "00000000000000aa"), .handle Sample.env,
    .downloadExit (Sample.downloader 0 "00000000000000aa") true "", .handle Sample.env,
    .packageWrite (Sample.packager 1 "00000000000000aa") (Sample.package 0),
    .post (Sample.request "00000000000000aa"), .handle Sample.env]

theorem servesComplete_iff_postWhilePackaging :
    ∃ h : ((system Sample.config).replay (start {}) postWhilePackaging).isSome = true,
      ∀ t ∈ (((system Sample.config).replay (start {}) postWhilePackaging).get h).1,
        ServesComplete t ↔ RequestsSettled t :=
  ⟨by decide, servesComplete_iff (System.run_get _)⟩

theorem not_servesComplete : ¬ ∀ (cfg : Config) (tr : List (Transition Machine Action))
    (m : Machine), (system cfg).Run (start {}) tr m → ∀ t ∈ tr, ServesComplete t := by
  intro hall
  have hsome : ((system Sample.config).replay (start {}) postWhilePackaging).isSome = true := by
    decide
  have hne : (((system Sample.config).replay (start {}) postWhilePackaging).get hsome).1 ≠ [] := by
    decide +revert
  have h := hall _ _ _ (System.run_get hsome) _ (List.head_mem hne) ⟨"00000000000000aa"⟩
    (Or.inl ⟨"http://nvr/dash/00000000000000aa/manifest.mpd", by decide +revert⟩)
  exact absurd h.1 (by decide +revert)

/-! ## Downloads -/

/-- A raw file on disk, of a key without a job, is of a download that succeeded
unless that download failed or was cut off. -/
theorem Recorded.downloaded (hi : Recorded m) (hjob : k ∉ m.activeJobs)
    (hmp4 : mp4Exists k m.disk = true)
    (hs : m.lastDownload k ≠ some .failed ∧ m.lastDownload k ≠ some .interrupted) :
    m.lastDownload k = some .succeeded := by
  have hknown : m.lastDownload k ≠ none := hi.downloads.known k (Or.inr (of_decide_eq_true hmp4))
  have hlive : m.lastDownload k ≠ some .running := by
    intro h
    obtain ⟨w, hw, hkey⟩ := hi.downloads.live k h
    obtain ⟨-, -, job, hj, -⟩ := hi.owned.of_mem (mem_tokens_of_downloader hw)
    rw [hkey] at hj
    exact hjob (Table.mem_iff_lookup.mpr ⟨job, hj⟩)
  cases ho : m.lastDownload k with
  | none => exact absurd ho hknown
  | some o =>
    cases o with
    | running => exact absurd ho hlive
    | succeeded => rfl
    | failed => exact absurd ho hs.1
    | interrupted => exact absurd ho hs.2

/-- The shortcut starts a packager, and changes no record of downloads. -/
theorem package_of_shortcut {r : PlaybackRequest}
    (h : Dispatched cfg env m m' (.playbackRequested r))
    (hdash : dashExists r.key m.disk = false) (hjob : r.key ∉ m.activeJobs)
    (htoken : ¬ (LoginUseCase.ensureLoggedIn cfg.loginIdle env.login r.credentials
      m.loginCache).1 < 0)
    (hmp4 : mp4Exists r.key m.disk = true) :
    (∃ w, .package w ∈ m'.calls ∧ w.key = r.key) ∧ m'.lastDownload = m.lastDownload := by
  cases h with
  | playbackRequested hs =>
    cases hs with
    | ready hd => rw [hdash] at hd; cases hd
    | active hd hj => exact absurd hj hjob
    | refused hd hj hlogin ht =>
      rw [hlogin] at htoken
      exact absurd ht htoken
    | shortcut =>
      exact ⟨⟨_, List.mem_append_right _ (List.mem_cons_of_mem _ List.mem_cons_self), rfl⟩, rfl⟩
    | download hd hj hlogin ht hm => rw [hmp4] at hm; cases hm

theorem repackage_frame {r : PlaybackRequest} {w : Packager}
    (h : Dispatched cfg env m m' (.playbackRequested r)) (hw : .package w ∈ m'.calls)
    (hcalls : m.calls = []) : m'.lastDownload = m.lastDownload ∧
      ¬ (LoginUseCase.ensureLoggedIn cfg.loginIdle env.login r.credentials m.loginCache).1 < 0 := by
  cases h with
  | playbackRequested hs =>
    cases hs with
    | ready | active | refused | download =>
      simp [statusChanged, call, afterLogin, launchDownloader, hcalls] at hw
    | shortcut hd hj hlogin htoken hm =>
      rw [hlogin]
      exact ⟨rfl, htoken⟩

theorem downloadFinished_frame {w : Nat} {key : PlaybackKey} {ok : Bool} {err : String}
    (h : Dispatched cfg env m m' (.downloadFinished w key ok err)) :
    m'.lastDownload = m.lastDownload := by
  cases h with
  | downloadFinished hs => cases hs <;> rfl

/-- Every packager reads a complete download exactly when the shortcut does not
take what a failed or interrupted one left. -/
theorem packagesComplete_iff {tr : List (Transition Machine Action)}
    (h : (system cfg).Run (start {}) tr m) :
    ∀ t ∈ tr, PackagesComplete t ↔ ShortcutsSettled cfg t := by
  intro t ht
  obtain ⟨hr, hstep⟩ := h.transition ht
  have hi : Recorded t.pre := recorded hr
  constructor
  · intro hp env r q ha hq hdash hjob htoken hmp4
    rw [show (system cfg).step = step cfg from rfl, ha] at hstep
    cases stepped hstep with
    | handle hq' hclock hs =>
      obtain ⟨rfl, rfl⟩ := List.cons.inj (hq.symm.trans hq')
      obtain ⟨⟨w, hw, hkey⟩, hl⟩ := package_of_shortcut hs hdash hjob htoken hmp4
      have hl : t.post.lastDownload = t.pre.lastDownload := hl
      have hlast := (hp w hw).2.2
      rw [hl, hkey] at hlast
      rw [hlast]
      exact ⟨by decide, by decide⟩
  · intro hc w hw
    obtain ⟨env, e, q, ha, hq, hs, hcalled⟩ := called_of_step hstep hw
    cases hcalled with
    | @repackage r hdash hjob hmp4 =>
      obtain ⟨hl, htoken⟩ := repackage_frame hs hw rfl
      have hl : t.post.lastDownload = t.pre.lastDownload := hl
      rw [hl]
      exact ⟨rfl, rfl, hi.downloaded hjob hmp4 (hc env r q ha hq hdash hjob htoken hmp4)⟩
    | @package v key err hjob =>
      have hl : t.post.lastDownload = t.pre.lastDownload :=
        downloadFinished_frame (m := t.pre.popped env q) hs
      have hmem : Event.downloadFinished v key true err ∈ t.pre.queue := by
        rw [hq]
        exact List.mem_cons_self
      rw [hl]
      exact ⟨rfl, rfl, hi.downloads.posted key true ⟨v, err, hmem⟩⟩

/-- A download fails and leaves what it has, and the next POST packages that. -/
def postAfterFailure : List Action :=
  [.post (Sample.request "00000000000000aa"), .handle Sample.env,
    .downloadWrite (Sample.downloader 0 "00000000000000aa") { content := [0] },
    .downloadExit (Sample.downloader 0 "00000000000000aa") false "Download error", .handle Sample.env,
    .post (Sample.request "00000000000000aa"), .handle Sample.env]

theorem packagesComplete_iff_postAfterFailure :
    ∃ h : ((system Sample.config).replay (start {}) postAfterFailure).isSome = true,
      ∀ t ∈ (((system Sample.config).replay (start {}) postAfterFailure).get h).1,
        PackagesComplete t ↔ ShortcutsSettled Sample.config t :=
  ⟨by decide, packagesComplete_iff (System.run_get _)⟩

theorem not_packagesComplete : ¬ ∀ (cfg : Config) (tr : List (Transition Machine Action))
    (m : Machine), (system cfg).Run (start {}) tr m → ∀ t ∈ tr, PackagesComplete t := by
  intro hall
  have hsome : ((system Sample.config).replay (start {}) postAfterFailure).isSome = true := by
    decide
  have hne : (((system Sample.config).replay (start {}) postAfterFailure).get hsome).1 ≠ [] := by
    decide +revert
  have h := hall _ _ _ (System.run_get hsome) _ (List.head_mem hne)
    (Sample.packager 1 "00000000000000aa") (by decide +revert)
  exact absurd h.2.2 (by decide +revert)

end Machine

end VisionPlayback
