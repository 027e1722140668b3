import VisionPlayback.Processor.Ownership

/-!
# How the latest run of a key stands

The two history fields say what became of the latest download and the latest
packaging run of a key. Over a downloads directory that was empty at first they
agree with the workers, the queued completions and the files, across restarts.
-/

namespace VisionPlayback.Machine

open Lib StreamCache

abbrev Downloading (m : Machine) (k : PlaybackKey) : Prop := ∃ w ∈ m.downloaders, w.request.key = k

abbrev Packaging (m : Machine) (k : PlaybackKey) : Prop := ∃ w ∈ m.packagers, w.key = k

/-- A download of the key has ended and its slot has not run yet. -/
def DownloadEnded (m : Machine) (k : PlaybackKey) (ok : Bool) : Prop :=
  ∃ w err, .downloadFinished w k ok err ∈ m.queue

def PackageEnded (m : Machine) (k : PlaybackKey) (ok : Bool) : Prop :=
  ∃ w err, .packageFinished w k ok err ∈ m.queue

def Downloads (m : Machine) : Prop :=
  Chronicle m.lastDownload m.Downloading m.DownloadEnded fun k => mp4Path k ∈ m.disk.raw

def Packages (m : Machine) : Prop :=
  Chronicle m.lastPackage m.Packaging m.PackageEnded fun k => dashDir k ∈ m.disk.dirs

variable {m m' : Machine} {key : PlaybackKey}

theorem token?_eq_none (h : m.tokens key = []) {e : Event} (he : e ∈ m.queue) :
    e.token? key = none := by
  cases ht : e.token? key with
  | none => rfl
  | some t =>
    have hmem := mem_tokens_of_event he ht
    rw [h] at hmem
    cases hmem

theorem not_downloadEnded (h : m.tokens key = []) (ok : Bool) : ¬ DownloadEnded m key ok := by
  intro ⟨w, err, he⟩
  have ht := token?_eq_none h he
  simp [Event.token?] at ht

theorem not_packageEnded (h : m.tokens key = []) (ok : Bool) : ¬ PackageEnded m key ok := by
  intro ⟨w, err, he⟩
  have ht := token?_eq_none h he
  simp [Event.token?] at ht

/-! ## Downloads -/

theorem Downloads.frame (hi : Downloads m) (hl : m'.lastDownload = m.lastDownload)
    (hd : m'.downloaders = m.downloaders)
    (hq : ∀ w k ok err, .downloadFinished w k ok err ∈ m'.queue →
      .downloadFinished w k ok err ∈ m.queue)
    (hp : ∀ n ∈ m'.disk.raw, n ∈ m.disk.raw) : Downloads m' := by
  unfold Downloads
  rw [hl]
  refine Chronicle.frame hi (fun k => ?_) (fun k ok => ?_) fun k hk => Or.inl (hp _ hk)
  · unfold Downloading
    rw [hd]
  · intro ⟨w, err, he⟩
    exact ⟨w, err, hq w k ok err he⟩

theorem Downloads.launch {r : PlaybackRequest} (hi : Downloads m) (ht : m.tokens r.key = []) :
    Downloads (m.launchDownloader r) := by
  have hnone : ∀ ok, ¬ DownloadEnded m r.key ok := not_downloadEnded ht
  exact Chronicle.launch_worker (f := fun w : Downloader => w.request.key)
    (w := ⟨m.nextWorker, r, mp4Path r.key⟩) hi (fun _ _ h => h) hnone fun _ h => Or.inl h

theorem Downloads.exit {w : Downloader} {ok : Bool} {err : String} (hi : Downloads m)
    (ho : Ownership m) (hw : w ∈ m.downloaders)
    (hl : m'.lastDownload = Function.update m.lastDownload w.request.key (some (.ended ok)))
    (hd : m'.downloaders = m.downloaders.erase w)
    (hq : m'.queue = m.queue ++ [.downloadFinished w.id w.request.key ok err])
    (hp : m'.disk = m.disk) : Downloads m' := by
  obtain ⟨htokens, -⟩ := ho.of_mem (mem_tokens_of_downloader hw)
  unfold Downloads Downloading
  rw [hl, hd, hp]
  refine Chronicle.exit_worker (f := fun w : Downloader => w.request.key) hi hw (fun k b => ?_)
    fun b => ?_
  · intro ⟨v, err', he⟩
    rw [hq] at he
    rcases List.mem_append.mp he with he | he
    · exact Or.inl ⟨v, err', he⟩
    · have h := List.mem_singleton.mp he
      simp only [Event.downloadFinished.injEq] at h
      exact Or.inr ⟨h.2.1, h.2.2.1⟩
  · intro ⟨v, err', he⟩
    have ht : Token.downloaded v b ∈ m.tokens w.request.key := mem_tokens_of_event he (if_pos rfl)
    rw [htokens] at ht
    cases List.mem_singleton.mp ht

theorem Downloads.dispatched {cfg : Config} {env : Env} {e : Event} {q : List Event}
    (hi : Downloads m) (ho : Ownership m) (hq : m.queue = e :: q)
    (h : Dispatched cfg env (m.popped env q) m' e) : Downloads m' := by
  have hi' : Downloads (m.popped env q) :=
    hi.frame rfl rfl (fun _ _ _ _ h => hq ▸ List.mem_cons_of_mem _ h) fun _ h => h
  have keep : ∀ n : Machine, n.lastDownload = m.lastDownload → n.downloaders = m.downloaders →
      n.queue = q → (∀ f ∈ n.disk.raw, f ∈ m.disk.raw) → Downloads n := by
    intro n hl hd hn hp
    exact hi'.frame hl hd (fun _ _ _ _ h => hn ▸ h) hp
  cases h with
  | @playbackRequested r hs =>
    cases hs with
    | active hdash hjob => exact hi'
    | ready | refused => exact keep _ rfl rfl rfl fun _ h => h
    | shortcut => exact keep _ rfl rfl rfl fun _ h => (mkpath_raw _ _ _ ▸ h : _ ∈ m.disk.raw)
    | @download token cache calls hdash hjob hlogin htoken hmp4 =>
      have ho' : Ownership (m.popped env q) := ho.pop env hq fun _ => rfl
      have hj : Downloads ((m.popped env q).afterLogin cache calls) :=
        keep _ rfl rfl rfl fun _ h => h
      exact Downloads.launch (r := { r with token := token }) hj (ho'.but hjob).2
  | keyAccessed hs =>
    obtain rfl := hs
    exact keep _ rfl rfl rfl fun _ h => h
  | exportRequested hs => cases hs <;> exact keep _ rfl rfl rfl fun _ h => h
  | downloadFinished hs =>
    cases hs with
    | ignored hjob => exact hi'
    | failed => exact keep _ rfl rfl rfl fun _ h => h
    | packaging => exact keep _ rfl rfl rfl fun _ h => (mkpath_raw _ _ _ ▸ h : _ ∈ m.disk.raw)
  | packageFinished hs =>
    cases hs with
    | ignored hjob => exact hi'
    | failed => exact keep _ rfl rfl rfl fun _ h => h
    | ready =>
      refine keep _ rfl rfl rfl fun f h => ?_
      have h := evictToCapacity_raw.1 ▸ h
      exact (AList.mem_erase.mp h).2
  | exportDone hs =>
    cases hs with
    | ignored hexp => exact hi'
    | finished hexp => exact keep _ rfl rfl rfl fun _ h => h

theorem Downloads.write {w : Downloader} {f : File} (hi : Downloads m) (hn : Named m)
    (hw : w ∈ m.downloaders) (hl : m'.lastDownload = m.lastDownload)
    (hd : m'.downloaders = m.downloaders) (hq : m'.queue = m.queue)
    (hp : m'.disk.raw = m.disk.raw.insert w.outputPath f) : Downloads m' := by
  unfold Downloads
  rw [hl, hp]
  refine Chronicle.frame hi (fun k => ?_) (fun k ok => ?_) fun k hk => ?_
  · unfold Downloading
    rw [hd]
  · unfold DownloadEnded
    rw [hq]
    exact id
  · rcases (AList.mem_insert _).mp hk with hk | hk
    · rw [(hn.downloads w hw).1] at hk
      exact Or.inr ⟨w, hw, (mp4Path_inj hk).symm⟩
    · exact Or.inl hk

theorem Downloads.step {cfg : Config} {a : Action} (hi : Downloads m) (ho : Ownership m)
    (hn : Named m) (h : Machine.step cfg a m = some m') : Downloads m' := by
  cases stepped h with
  | handle hq hclock hs => exact hi.dispatched ho hq hs
  | post | access | requestExport | packageExit | exportExit =>
    exact hi.frame rfl rfl (fun _ _ _ _ he => mem_of_enqueue he nofun) fun _ h => h
  | dropExport | packageWrite | exportWrite =>
    exact hi.frame rfl rfl (fun _ _ _ _ he => he) fun _ h => h
  | downloadWrite hw => exact hi.write hn hw rfl rfl rfl rfl
  | downloadExit hw => exact hi.exit ho hw rfl rfl rfl rfl
  | restart =>
    refine Chronicle.frame (Chronicle.restart hi) (fun k => ?_) (fun k ok => ?_) fun _ h => Or.inl h
    · simp [Downloading, restart]
    · intro ⟨w, err, he⟩
      cases he

/-! ## Packages -/

theorem Packages.frame (hi : Packages m) (hl : m'.lastPackage = m.lastPackage)
    (hd : m'.packagers = m.packagers)
    (hq : ∀ w k ok err, .packageFinished w k ok err ∈ m'.queue →
      .packageFinished w k ok err ∈ m.queue)
    (hp : ∀ n ∈ m'.disk.dirs, n ∈ m.disk.dirs) : Packages m' := by
  unfold Packages
  rw [hl]
  refine Chronicle.frame hi (fun k => ?_) (fun k ok => ?_) fun k hk => Or.inl (hp _ hk)
  · unfold Packaging
    rw [hd]
  · intro ⟨w, err, he⟩
    exact ⟨w, err, hq w k ok err he⟩

theorem Packages.launch {env : Env} {job : Job} (hi : Packages m) (ht : m.tokens key = []) :
    Packages (m.launchPackager env key job) := by
  have hnone : ∀ ok, ¬ PackageEnded m key ok := not_packageEnded ht
  refine Chronicle.launch_worker (f := fun w : Packager => w.key)
    (w := ⟨m.nextWorker, key, mp4Path key, dashDir key⟩) hi (fun _ _ h => h) hnone fun k hk => ?_
  rcases mem_mkpath.mp hk with hk | hk
  · exact Or.inr (dashDir_inj hk)
  · exact Or.inl hk

theorem Packages.exit {w : Packager} {ok : Bool} {err : String} (hi : Packages m)
    (ho : Ownership m) (hw : w ∈ m.packagers)
    (hl : m'.lastPackage = Function.update m.lastPackage w.key (some (.ended ok)))
    (hd : m'.packagers = m.packagers.erase w)
    (hq : m'.queue = m.queue ++ [.packageFinished w.id w.key ok err])
    (hp : m'.disk = m.disk) : Packages m' := by
  obtain ⟨htokens, -⟩ := ho.of_mem (mem_tokens_of_packager hw)
  unfold Packages Packaging
  rw [hl, hd, hp]
  refine Chronicle.exit_worker (f := fun w : Packager => w.key) hi hw (fun k b => ?_) fun b => ?_
  · intro ⟨v, err', he⟩
    rw [hq] at he
    rcases List.mem_append.mp he with he | he
    · exact Or.inl ⟨v, err', he⟩
    · have h := List.mem_singleton.mp he
      simp only [Event.packageFinished.injEq] at h
      exact Or.inr ⟨h.2.1, h.2.2.1⟩
  · intro ⟨v, err', he⟩
    have ht : Token.packaged v b ∈ m.tokens w.key := mem_tokens_of_event he (if_pos rfl)
    rw [htokens] at ht
    cases List.mem_singleton.mp ht

theorem Packages.write {w : Packager} {p : PackageDir} (hi : Packages m) (hn : Named m)
    (hw : w ∈ m.packagers) (hl : m'.lastPackage = m.lastPackage)
    (hd : m'.packagers = m.packagers) (hq : m'.queue = m.queue)
    (hp : m'.disk.dirs = m.disk.dirs.insert w.outputDir p) : Packages m' := by
  unfold Packages
  rw [hl, hp]
  refine Chronicle.frame hi (fun k => ?_) (fun k ok => ?_) fun k hk => ?_
  · unfold Packaging
    rw [hd]
  · unfold PackageEnded
    rw [hq]
    exact id
  · rcases (AList.mem_insert _).mp hk with hk | hk
    · rw [(hn.packages w hw).2.1] at hk
      exact Or.inr ⟨w, hw, (dashDir_inj hk).symm⟩
    · exact Or.inl hk

theorem Packages.dispatched {cfg : Config} {env : Env} {e : Event} {q : List Event}
    (hi : Packages m) (ho : Ownership m) (hq : m.queue = e :: q)
    (h : Dispatched cfg env (m.popped env q) m' e) : Packages m' := by
  have hi' : Packages (m.popped env q) :=
    hi.frame rfl rfl (fun _ _ _ _ h => hq ▸ List.mem_cons_of_mem _ h) fun _ h => h
  have keep : ∀ n : Machine, n.lastPackage = m.lastPackage → n.packagers = m.packagers →
      n.queue = q → (∀ f ∈ n.disk.dirs, f ∈ m.disk.dirs) → Packages n := by
    intro n hl hd hn hp
    exact hi'.frame hl hd (fun _ _ _ _ h => hn ▸ h) hp
  cases h with
  | @playbackRequested r hs =>
    cases hs with
    | active hdash hjob => exact hi'
    | ready | refused | download => exact keep _ rfl rfl rfl fun _ h => h
    | @shortcut token cache calls hdash hjob hlogin htoken hmp4 =>
      have ho' : Ownership (m.popped env q) := ho.pop env hq fun _ => rfl
      have hj : Packages ((((m.popped env q).afterLogin cache calls).call
          (.emplaceJob r.key true)).statusChanged r.key .pending "") :=
        keep _ rfl rfl rfl fun _ h => h
      exact hj.launch (ho'.but hjob).2
  | keyAccessed hs =>
    obtain rfl := hs
    exact keep _ rfl rfl rfl fun _ h => h
  | exportRequested hs => cases hs <;> exact keep _ rfl rfl rfl fun _ h => h
  | downloadFinished hs =>
    cases hs with
    | ignored hjob => exact hi'
    | failed => exact keep _ rfl rfl rfl fun _ h => h
    | packaging =>
      have ht := (ho.spend env hq fun _ => rfl).1.2
      exact hi'.launch ht
  | packageFinished hs =>
    cases hs with
    | ignored hjob => exact hi'
    | failed => exact keep _ rfl rfl rfl fun _ h => h
    | ready => exact keep _ rfl rfl rfl fun f h =>
      mem_of_mem_evictToCapacity (d := deleteMp4 _ m.disk) h
  | exportDone hs =>
    cases hs with
    | ignored hexp => exact hi'
    | finished hexp => exact keep _ rfl rfl rfl fun _ h => h

theorem Packages.step {cfg : Config} {a : Action} (hi : Packages m) (ho : Ownership m)
    (hn : Named m) (h : Machine.step cfg a m = some m') : Packages m' := by
  cases stepped h with
  | handle hq hclock hs => exact hi.dispatched ho hq hs
  | post | access | requestExport | downloadExit | exportExit =>
    exact hi.frame rfl rfl (fun _ _ _ _ he => mem_of_enqueue he nofun) fun _ h => h
  | dropExport | downloadWrite | exportWrite =>
    exact hi.frame rfl rfl (fun _ _ _ _ he => he) fun _ h => h
  | packageWrite hw => exact hi.write hn hw rfl rfl rfl rfl
  | packageExit hw => exact hi.exit ho hw rfl rfl rfl rfl
  | restart =>
    refine Chronicle.frame (Chronicle.restart hi) (fun k => ?_) (fun k ok => ?_) fun _ h => Or.inl h
    · simp [Packaging, restart]
    · intro ⟨w, err, he⟩
      cases he

/-! ## Every state reached from an empty downloads directory -/

structure Recorded (m : Machine) : Prop where
  owned : Ownership m
  named : Named m
  downloads : Downloads m
  packages : Packages m

theorem recorded {cfg : Config} (h : (system cfg).Reachable (start {}) m) : Recorded m := by
  refine h.invariant ?_ fun a m m' hi hs => ?_
  · refine ⟨fun _ => .idle, named_idle rfl rfl rfl rfl, ?_, ?_⟩
    · refine Chronicle.empty.frame (fun k => ?_) (fun k ok => ?_) fun k hk => ?_
      · simp [Downloading, start]
      · intro ⟨w, err, he⟩
        cases he
      · cases hk
    · refine Chronicle.empty.frame (fun k => ?_) (fun k ok => ?_) fun k hk => ?_
      · simp [Packaging, start]
      · intro ⟨w, err, he⟩
        cases he
      · cases hk
  · exact ⟨hi.owned.step hs, hi.named.step hs, hi.downloads.step hi.owned hi.named hs,
      hi.packages.step hi.owned hi.named hs⟩

end VisionPlayback.Machine
