import VisionPlayback.Processor.Ownership

/-!
# What a slot starts

A slot starts one worker at most, by a call, and numbers it with the next number. It
writes the lists of the workers without reading them, so it does the same on a machine
with other lists.
-/

namespace VisionPlayback

open Lib StreamCache

def Call.download? : Call → Option Downloader
  | .startDownload w => some w
  | _ => none

def Call.package? : Call → Option Packager
  | .package w => some w
  | _ => none

def Call.export? : Call → Option ClipExport
  | .exportClip w => some w
  | _ => none

theorem Call.download?_eq_some {c : Call} {w : Downloader} :
    c.download? = some w ↔ c = .startDownload w := by
  cases c <;> simp [Call.download?]

theorem Call.package?_eq_some {c : Call} {w : Packager} :
    c.package? = some w ↔ c = .package w := by
  cases c <;> simp [Call.package?]

theorem Call.export?_eq_some {c : Call} {w : ClipExport} :
    c.export? = some w ↔ c = .exportClip w := by
  cases c <;> simp [Call.export?]

variable {calls : List Call}

theorem Call.mem_of_download? {w : Downloader} (h : calls.filterMap (·.download?) = [w]) :
    .startDownload w ∈ calls := by
  have hmem : w ∈ calls.filterMap (·.download?) := h ▸ List.mem_singleton_self w
  obtain ⟨c, hc, he⟩ := List.mem_filterMap.mp hmem
  exact Call.download?_eq_some.mp he ▸ hc

theorem Call.mem_of_package? {w : Packager} (h : calls.filterMap (·.package?) = [w]) :
    .package w ∈ calls := by
  have hmem : w ∈ calls.filterMap (·.package?) := h ▸ List.mem_singleton_self w
  obtain ⟨c, hc, he⟩ := List.mem_filterMap.mp hmem
  exact Call.package?_eq_some.mp he ▸ hc

theorem Call.mem_of_export? {w : ClipExport} (h : calls.filterMap (·.export?) = [w]) :
    .exportClip w ∈ calls := by
  have hmem : w ∈ calls.filterMap (·.export?) := h ▸ List.mem_singleton_self w
  obtain ⟨c, hc, he⟩ := List.mem_filterMap.mp hmem
  exact Call.export?_eq_some.mp he ▸ hc

namespace Machine

variable {cfg : Config} {env : Env} {e : Event} {m m' : Machine}

/-! ## What slots do not read -/

theorem Requested.unique {r : PlaybackRequest} {m₁ m₂ : Machine} (h : Requested cfg env r m m₁)
    (h' : Requested cfg env r m m₂) : m₁ = m₂ := by
  cases h <;> cases h' <;> simp_all <;> grind

/-- A slot can do one thing only. -/
theorem Dispatched.unique {m₁ m₂ : Machine} (h : Dispatched cfg env m m₁ e)
    (h' : Dispatched cfg env m m₂ e) : m₁ = m₂ := by
  cases h with
  | playbackRequested hs => cases h' with | playbackRequested hs' => exact hs.unique hs'
  | keyAccessed hs => cases h' with | keyAccessed hs' => rw [hs, hs']
  | exportRequested hs => cases h' with | exportRequested hs' => cases hs <;> cases hs' <;> simp_all
  | downloadFinished hs =>
    cases h' with | downloadFinished hs' => cases hs <;> cases hs' <;> simp_all
  | packageFinished hs =>
    cases h' with | packageFinished hs' => cases hs <;> cases hs' <;> simp_all
  | exportDone hs => cases h' with | exportDone hs' => cases hs <;> cases hs' <;> simp_all

/-- The fields that slots write, but never read. -/
structure Unread where
  downloaders : List Downloader
  packagers : List Packager
  exporters : List ClipExport
  lastDownload : PlaybackKey → Option Outcome
  lastPackage : PlaybackKey → Option Outcome

def withUnread (m : Machine) (u : Unread) : Machine :=
  { m with
    downloaders := u.downloaders
    packagers := u.packagers
    exporters := u.exporters
    lastDownload := u.lastDownload
    lastPackage := u.lastPackage }

/-- What a slot starts: one worker at most. -/
inductive Starts (calls : List Call) (u u' : Unread) : Prop
  | nothing (hd : u'.downloaders = u.downloaders) (hp : u'.packagers = u.packagers)
      (hx : u'.exporters = u.exporters)
      (hcalls : ∀ c ∈ calls, c.download? = none ∧ c.package? = none ∧ c.export? = none)
  | download (w : Downloader) (hd : u'.downloaders = u.downloaders ++ [w])
      (hp : u'.packagers = u.packagers) (hx : u'.exporters = u.exporters)
      (hcalls : calls.filterMap (·.download?) = [w] ∧ calls.filterMap (·.package?) = [] ∧
        calls.filterMap (·.export?) = [])
  | package (w : Packager) (hd : u'.downloaders = u.downloaders)
      (hp : u'.packagers = u.packagers ++ [w]) (hx : u'.exporters = u.exporters)
      (hcalls : calls.filterMap (·.download?) = [] ∧ calls.filterMap (·.package?) = [w] ∧
        calls.filterMap (·.export?) = [])
  | exportClip (w : ClipExport) (hd : u'.downloaders = u.downloaders)
      (hp : u'.packagers = u.packagers) (hx : u'.exporters = u.exporters ++ [w])
      (hcalls : calls.filterMap (·.download?) = [] ∧ calls.filterMap (·.package?) = [] ∧
        calls.filterMap (·.export?) = [w])

theorem Requested.withUnread {r : PlaybackRequest} (h : Requested cfg env r m m')
    (hcalls : m.calls = []) (u : Unread) :
    ∃ u', Requested cfg env r (m.withUnread u) (m'.withUnread u') ∧ Starts m'.calls u u' := by
  cases h with
  | ready hdash =>
    refine ⟨u, .ready hdash, .nothing rfl rfl rfl ?_⟩
    simp [statusChanged, call, hcalls, Call.download?, Call.package?, Call.export?]
  | active hdash hjob =>
    refine ⟨u, .active hdash hjob, .nothing rfl rfl rfl ?_⟩
    simp [hcalls]
  | @refused token cache calls hdash hjob hlogin htoken =>
    refine ⟨u, .refused hdash hjob hlogin htoken, .nothing rfl rfl rfl ?_⟩
    intro c hc
    simp only [statusChanged, call, afterLogin, hcalls, List.nil_append, List.mem_append,
      List.mem_map, List.mem_singleton] at hc
    rcases hc with ⟨a, -, rfl⟩ | rfl
    · exact ⟨rfl, rfl, rfl⟩
    · exact ⟨rfl, rfl, rfl⟩
  | shortcut hdash hjob hlogin htoken hmp4 =>
    refine ⟨{ u with
      packagers := u.packagers ++ [⟨m.nextWorker, r.key, mp4Path r.key, dashDir r.key⟩]
      lastPackage := Function.update u.lastPackage r.key (some .running) },
      .shortcut hdash hjob hlogin htoken hmp4, .package _ rfl rfl rfl ?_⟩
    simp [launchPackager, statusChanged, call, afterLogin, hcalls, List.filterMap_append,
      List.filterMap_map, Call.download?, Call.package?, Call.export?]
  | @download token cache calls hdash hjob hlogin htoken hmp4 =>
    refine ⟨{ u with
      downloaders := u.downloaders ++ [⟨m.nextWorker, { r with token := token }, mp4Path r.key⟩]
      lastDownload := Function.update u.lastDownload r.key (some .running) },
      .download hdash hjob hlogin htoken hmp4, .download _ rfl rfl rfl ?_⟩
    simp [launchDownloader, afterLogin, hcalls, List.filterMap_append,
      List.filterMap_map, Call.download?, Call.package?, Call.export?]

theorem Dispatched.withUnread (h : Dispatched cfg env m m' e) (hcalls : m.calls = [])
    (u : Unread) :
    ∃ u', Dispatched cfg env (m.withUnread u) (m'.withUnread u') e ∧ Starts m'.calls u u' := by
  cases h with
  | playbackRequested hs =>
    obtain ⟨u', hs', hstarts⟩ := hs.withUnread hcalls u
    exact ⟨u', .playbackRequested hs', hstarts⟩
  | keyAccessed hs =>
    subst hs
    refine ⟨u, .keyAccessed rfl, .nothing rfl rfl rfl ?_⟩
    simp [onKeyAccessed, hcalls]
  | @exportRequested requestId keyHex startSec endSec hs =>
    cases hs with
    | notReady hdash =>
      refine ⟨u, .exportRequested (.notReady hdash), .nothing rfl rfl rfl ?_⟩
      simp [call, hcalls, Call.download?, Call.package?, Call.export?]
    | started hdash =>
      refine ⟨{ u with
        exporters := u.exporters ++ [clipExport requestId keyHex startSec endSec] },
        .exportRequested (.started hdash), .exportClip _ rfl rfl rfl ?_⟩
      simp [launchExporter, hcalls, Call.download?, Call.package?, Call.export?]
  | @downloadFinished worker key success err hs =>
    cases hs with
    | ignored hjob =>
      refine ⟨u, .downloadFinished (.ignored hjob), .nothing rfl rfl rfl ?_⟩
      simp [hcalls]
    | failed hjob hok =>
      refine ⟨u, .downloadFinished (.failed hjob hok), .nothing rfl rfl rfl ?_⟩
      simp [statusChanged, call, hcalls, Call.download?, Call.package?, Call.export?]
    | packaging hjob hok =>
      refine ⟨{ u with
        packagers := u.packagers ++ [⟨m.nextWorker, key, mp4Path key, dashDir key⟩]
        lastPackage := Function.update u.lastPackage key (some .running) },
        .downloadFinished (.packaging hjob hok), .package _ rfl rfl rfl ?_⟩
      simp [launchPackager, hcalls, Call.download?, Call.package?, Call.export?]
  | @packageFinished worker key success err hs =>
    cases hs with
    | ignored hjob =>
      refine ⟨u, .packageFinished (.ignored hjob), .nothing rfl rfl rfl ?_⟩
      simp [hcalls]
    | failed hjob hok =>
      refine ⟨u, .packageFinished (.failed hjob hok), .nothing rfl rfl rfl ?_⟩
      simp [statusChanged, call, hcalls, Call.download?, Call.package?, Call.export?]
    | ready hjob hok =>
      refine ⟨u, .packageFinished (.ready hjob hok), .nothing rfl rfl rfl ?_⟩
      intro c hc
      simp only [statusChanged, call, evict_calls, beforeEvict, hcalls, List.nil_append,
        List.mem_append, List.mem_map, List.mem_singleton] at hc
      rcases hc with ⟨hex, -, rfl⟩ | rfl
      · exact ⟨rfl, rfl, rfl⟩
      · exact ⟨rfl, rfl, rfl⟩
  | exportDone hs =>
    cases hs with
    | ignored hexp =>
      refine ⟨u, .exportDone (.ignored hexp), .nothing rfl rfl rfl ?_⟩
      simp [hcalls]
    | finished hexp =>
      refine ⟨u, .exportDone (.finished hexp), .nothing rfl rfl rfl ?_⟩
      simp [call, hcalls, Call.download?, Call.package?, Call.export?]

end Machine

/-! ## Tokens, read back -/

namespace Machine

variable {m : Machine} {k : PlaybackKey} {id : Nat}

theorem of_mem_tokens_downloading (h : .downloading id ∈ m.tokens k) :
    ∃ w ∈ m.downloaders, w.request.key = k ∧ w.id = id := by
  simp only [tokens, tokensOf, List.mem_append, List.mem_filterMap, or_assoc] at h
  rcases h with ⟨w, hw, he⟩ | ⟨w, -, he⟩ | ⟨e, -, he⟩
  · simp only [Downloader.token?, Option.ite_none_right_eq_some, Option.some.injEq,
      Token.downloading.injEq] at he
    exact ⟨w, hw, he⟩
  · simp [Packager.token?] at he
  · cases e <;> simp [Event.token?] at he

theorem of_mem_tokens_packaging (h : .packaging id ∈ m.tokens k) :
    ∃ w ∈ m.packagers, w.key = k ∧ w.id = id := by
  simp only [tokens, tokensOf, List.mem_append, List.mem_filterMap, or_assoc] at h
  rcases h with ⟨w, -, he⟩ | ⟨w, hw, he⟩ | ⟨e, -, he⟩
  · simp [Downloader.token?] at he
  · simp only [Packager.token?, Option.ite_none_right_eq_some, Option.some.injEq,
      Token.packaging.injEq] at he
    exact ⟨w, hw, he⟩
  · cases e <;> simp [Event.token?] at he

theorem of_mem_tokens_downloaded {ok : Bool} (h : .downloaded id ok ∈ m.tokens k) :
    ∃ err, .downloadFinished id k ok err ∈ m.queue := by
  simp only [tokens, tokensOf, List.mem_append, List.mem_filterMap, or_assoc] at h
  rcases h with ⟨w, -, he⟩ | ⟨w, -, he⟩ | ⟨e, hmem, he⟩
  · simp [Downloader.token?] at he
  · simp [Packager.token?] at he
  · cases e with
    | downloadFinished w key ok' err =>
      simp only [Event.token?, Option.ite_none_right_eq_some, Option.some.injEq,
        Token.downloaded.injEq] at he
      obtain ⟨rfl, rfl, rfl⟩ := he
      exact ⟨err, hmem⟩
    | packageFinished => simp [Event.token?] at he
    | playbackRequested | keyAccessed | exportRequested | exportDone => cases he

theorem of_mem_tokens_packaged {ok : Bool} (h : .packaged id ok ∈ m.tokens k) :
    ∃ err, .packageFinished id k ok err ∈ m.queue := by
  simp only [tokens, tokensOf, List.mem_append, List.mem_filterMap, or_assoc] at h
  rcases h with ⟨w, -, he⟩ | ⟨w, -, he⟩ | ⟨e, hmem, he⟩
  · simp [Downloader.token?] at he
  · simp [Packager.token?] at he
  · cases e with
    | packageFinished w key ok' err =>
      simp only [Event.token?, Option.ite_none_right_eq_some, Option.some.injEq,
        Token.packaged.injEq] at he
      obtain ⟨rfl, rfl, rfl⟩ := he
      exact ⟨err, hmem⟩
    | downloadFinished => simp [Event.token?] at he
    | playbackRequested | keyAccessed | exportRequested | exportDone => cases he

end Machine

end VisionPlayback
