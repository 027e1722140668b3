import VisionPlayback.Processor.Slots

/-!
# What a step does to the disk

Place by place: a step leaves what is there, or it is one of a few kinds of step and the
place is one of its own.
-/

namespace VisionPlayback

open Lib StreamCache

/-- A place on the disk. -/
inductive Location
  | raw (name : String)
  | dir (name : String)
  | file (dir name : String)
  | clip (path : String)
  deriving DecidableEq

/-- What there may be at a place. -/
inductive Content
  | file (f : File)
  | directory
  | clip (f : ExportFile)
  deriving DecidableEq

namespace Disk

/-- What there is at a place. -/
def shows : Location → Disk → Option Content
  | .raw name, d => (d.raw.lookup name).map .file
  | .dir name, d => (d.dirs.lookup name).map fun _ => .directory
  | .file dir name, d => ((d.dirs.lookup dir).bind (·.files.lookup name)).map .file
  | .clip path, d => (d.exports.lookup path).map .clip

end Disk

namespace Machine

variable {cfg : Config} {m m' : Machine}

/-- The key is announced with its package. -/
def Announces (cfg : Config) (key : PlaybackKey) (calls : List Call) : Prop :=
  .emit (.statusChanged key.hex .ready (mpdUrl key cfg.hostBase)) ∈ calls

/-- The steps that may change a place, with what they leave there. -/
inductive Touches (cfg : Config) (m m' : Machine) : Action → Location → Option Content → Prop
  | recorded {w : Downloader} {f : File} (hw : w ∈ m.downloaders) :
      Touches cfg m m' (.downloadWrite w f) (.raw w.outputPath) (some (.file f))
  | packaged {w : Packager} {p : PackageDir} {name : String} (hw : w ∈ m.packagers) :
      Touches cfg m m' (.packageWrite w p) (.file w.outputDir name)
        ((p.files.lookup name).map .file)
  | entered {w : Packager} {p : PackageDir} (hw : w ∈ m.packagers) :
      Touches cfg m m' (.packageWrite w p) (.dir w.outputDir) (some .directory)
  | clipped {w : ClipExport} {f : File} (hw : w ∈ m.exporters) :
      Touches cfg m m' (.exportWrite w f) (.clip w.outputPath) (some (.clip ⟨f, w⟩))
  | dropped {path : String} : Touches cfg m m' (.dropExport path) (.clip path) none
  | made {env : Env} {w : Packager} (hw : .package w ∈ m'.calls) :
      Touches cfg m m' (.handle env) (.dir w.outputDir) (some .directory)
  | deleted {env : Env} {key : PlaybackKey} (hready : Announces cfg key m'.calls) :
      Touches cfg m m' (.handle env) (.raw (mp4Path key)) none
  | removed {env : Env} {dir : String} (hremoved : .removed dir ∈ m'.calls) :
      Touches cfg m m' (.handle env) (.dir dir) none
  | evicted {env : Env} {dir name : String} {key : PlaybackKey} (hhex : matchesHex16 dir = true)
      (hready : Announces cfg key m'.calls) :
      Touches cfg m m' (.handle env) (.file dir name) none

/-! ## The operations on the disk -/

/-- `mkpath` shows nothing but the directory. -/
theorem shows_mkpath (name : String) (time : Int) (d : Disk) (loc : Location) :
    (mkpath name time d).shows loc = d.shows loc ∨
      loc = .dir name ∧ (mkpath name time d).shows loc = some .directory := by
  unfold mkpath
  split
  · exact Or.inl rfl
  · next hmem =>
    have hnone : d.dirs.lookup name = none := AList.lookup_eq_none.mpr hmem
    cases loc with
    | raw _ | clip _ => exact Or.inl rfl
    | dir n =>
      by_cases hn : n = name
      · subst hn
        refine Or.inr ⟨rfl, ?_⟩
        simp only [Disk.shows, AList.lookup_insert, Option.map_some]
      · left
        simp only [Disk.shows, AList.lookup_insert_ne hn]
    | file n f =>
      left
      by_cases hn : n = name
      · subst hn
        simp only [Disk.shows, AList.lookup_insert, hnone]
        rfl
      · simp only [Disk.shows, AList.lookup_insert_ne hn]

theorem shows_deleteMp4 (key : PlaybackKey) (d : Disk) (loc : Location) :
    (deleteMp4 key d).shows loc = d.shows loc ∨
      loc = .raw (mp4Path key) ∧ (deleteMp4 key d).shows loc = none := by
  cases loc with
  | dir _ | file _ _ | clip _ => exact Or.inl rfl
  | raw n =>
    by_cases hn : n = mp4Path key
    · subst hn
      refine Or.inr ⟨rfl, ?_⟩
      simp only [deleteMp4, Disk.shows, AList.lookup_erase, Option.map_none]
    · left
      simp only [deleteMp4, Disk.shows, AList.lookup_erase_ne hn]

/-- What is left of a directory shows files that were there. -/
theorem leftover_files {r : Removal} {p q : PackageDir} (h : r.leftover p = some q)
    (name : String) : q.files.lookup name = p.files.lookup name ∨ q.files.lookup name = none := by
  cases r with
  | done => cases h
  | failed keep time =>
    obtain rfl := Option.some.inj h
    rw [Table.lookup_retain]
    cases p.files.lookup name with
    | none => exact Or.inl rfl
    | some f => cases keep name <;> simp [Option.filter]

/-- A pass takes away a directory, or files of one that it goes for. -/
theorem shows_evictToCapacity (maxBytes : UInt64) (env : EvictEnv) (skipKeys : List PlaybackKey)
    (d : Disk) (loc : Location) :
    (evictToCapacity maxBytes env skipKeys d).1.shows loc = d.shows loc ∨
      (evictToCapacity maxBytes env skipKeys d).1.shows loc = none ∧
        ((∃ name, loc = .dir name ∧ name ∈ (evictToCapacity maxBytes env skipKeys d).2) ∨
          ∃ dir name, loc = .file dir name ∧ matchesHex16 dir = true) := by
  cases loc with
  | raw name =>
    left
    simp only [Disk.shows, evictToCapacity_raw.1]
  | clip path =>
    left
    simp only [Disk.shows, evictToCapacity_raw.2]
  | dir name =>
    by_cases ha : Attempts maxBytes env skipKeys d name
    · simp only [Disk.shows, evictToCapacity_lookup, if_pos ha]
      cases hr : env.remove name with
      | failed keep time =>
        left
        cases d.dirs.lookup name <;> rfl
      | done =>
        refine Or.inr ⟨by cases d.dirs.lookup name <;> rfl, Or.inl ⟨name, rfl, ?_⟩⟩
        rw [mem_evictToCapacity_snd, hr]
        exact ⟨ha, rfl⟩
    · left
      simp only [Disk.shows, evictToCapacity_lookup, if_neg ha]
  | file dir name =>
    by_cases ha : Attempts maxBytes env skipKeys d dir
    · simp only [Disk.shows, evictToCapacity_lookup, if_pos ha]
      have hhex := matchesHex16_of_attempts ha
      cases d.dirs.lookup dir with
      | none => exact Or.inl rfl
      | some p =>
        rw [Option.bind_some]
        cases hl : (env.remove dir).leftover p with
        | none => exact Or.inr ⟨rfl, Or.inr ⟨dir, name, rfl, hhex⟩⟩
        | some q =>
          rw [Option.bind_some, Option.bind_some]
          rcases leftover_files hl name with he | he
          · exact Or.inl (congrArg _ he)
          · refine Or.inr ⟨?_, Or.inr ⟨dir, name, rfl, hhex⟩⟩
            rw [he]
            rfl
    · left
      simp only [Disk.shows, evictToCapacity_lookup, if_neg ha]

/-! ## The slots -/

section Slots

variable {env : Env} {e : Event} {loc : Location}

/-- A slot touches the disk by its calls. -/
theorem Touches.of_slot {m₀ : Machine} {c : Option Content}
    (h : Touches cfg m₀ m' (.handle env) loc c) : Touches cfg m m' (.handle env) loc c := by
  cases h with
  | made hw => exact .made hw
  | deleted hready => exact .deleted hready
  | removed hremoved => exact .removed hremoved
  | evicted hhex hready => exact .evicted hhex hready

theorem touches_launchPackager {key : PlaybackKey} {job : Job} {m₀ : Machine}
    (hdisk : m₀.disk = m.disk) :
    (m₀.launchPackager env key job).disk.shows loc = m.disk.shows loc ∨
      Touches cfg m (m₀.launchPackager env key job) (.handle env) loc
        ((m₀.launchPackager env key job).disk.shows loc) := by
  rw [← hdisk]
  rcases shows_mkpath (dashDir key) env.mkdirTime m₀.disk loc with h | ⟨rfl, h⟩
  · exact Or.inl h
  · have hcall : .package ⟨m₀.nextWorker, key, mp4Path key, dashDir key⟩ ∈
        (m₀.launchPackager env key job).calls :=
      List.mem_append_right _ (List.mem_cons_of_mem _ List.mem_cons_self)
    have hshows : (m₀.launchPackager env key job).disk.shows (.dir (dashDir key)) =
        some .directory := h
    rw [hshows]
    exact Or.inr (.made hcall)

theorem touches_ready {key : PlaybackKey} :
    (((m.beforeEvict key).evict cfg env).statusChanged key .ready
        (mpdUrl key cfg.hostBase)).disk.shows loc = m.disk.shows loc ∨
      Touches cfg m (((m.beforeEvict key).evict cfg env).statusChanged key .ready
          (mpdUrl key cfg.hostBase)) (.handle env) loc
        ((((m.beforeEvict key).evict cfg env).statusChanged key .ready
          (mpdUrl key cfg.hostBase)).disk.shows loc) := by
  have hready : Announces cfg key (((m.beforeEvict key).evict cfg env).statusChanged key .ready
      (mpdUrl key cfg.hostBase)).calls := List.mem_append_right _ List.mem_cons_self
  have hremoved : ∀ name, name ∈ (evictToCapacity cfg.maxDownloadsBytes env.evict
      ((m.beforeEvict key).skipKeys env) (deleteMp4 key m.disk)).2 →
      .removed name ∈ (((m.beforeEvict key).evict cfg env).statusChanged key .ready
        (mpdUrl key cfg.hostBase)).calls := fun name hmem =>
    List.mem_append_left _ (List.mem_append_right _ (List.mem_map_of_mem hmem))
  show (evictToCapacity cfg.maxDownloadsBytes env.evict ((m.beforeEvict key).skipKeys env)
      (deleteMp4 key m.disk)).1.shows loc = m.disk.shows loc ∨
    Touches cfg m _ (.handle env) loc ((evictToCapacity cfg.maxDownloadsBytes env.evict
      ((m.beforeEvict key).skipKeys env) (deleteMp4 key m.disk)).1.shows loc)
  rcases shows_evictToCapacity cfg.maxDownloadsBytes env.evict ((m.beforeEvict key).skipKeys env)
    (deleteMp4 key m.disk) loc with h | ⟨h, hgone⟩
  · rw [h]
    rcases shows_deleteMp4 key m.disk loc with hd | ⟨rfl, hd⟩
    · exact Or.inl hd
    · rw [hd]
      exact Or.inr (.deleted hready)
  · rw [h]
    rcases hgone with ⟨name, rfl, hmem⟩ | ⟨dir, name, rfl, hhex⟩
    · exact Or.inr (.removed (hremoved name hmem))
    · exact Or.inr (.evicted hhex hready)

theorem Dispatched.touches (h : Dispatched cfg env m m' e) :
    m'.disk.shows loc = m.disk.shows loc ∨
      Touches cfg m m' (.handle env) loc (m'.disk.shows loc) := by
  cases h with
  | playbackRequested hs =>
    cases hs with
    | ready | active | refused | download => exact Or.inl rfl
    | shortcut => exact touches_launchPackager rfl
  | keyAccessed hs =>
    rw [hs]
    exact Or.inl rfl
  | exportRequested hs => cases hs <;> exact Or.inl rfl
  | downloadFinished hs =>
    cases hs with
    | ignored | failed => exact Or.inl rfl
    | packaging => exact touches_launchPackager rfl
  | packageFinished hs =>
    cases hs with
    | ignored | failed => exact Or.inl rfl
    | ready => exact touches_ready
  | exportDone hs => cases hs <;> exact Or.inl rfl

end Slots

/-! ## The steps -/

/-- A write into a table shows at the place it is for. -/
theorem lookup_insert_or {α β : Type*} (t : Table String α) (k k' : String) (a : α) (f : α → β) :
    ((t.insert k a).lookup k').map f = (t.lookup k').map f ∨
      k' = k ∧ ((t.insert k a).lookup k').map f = some (f a) := by
  by_cases hk : k' = k
  · subst hk
    exact Or.inr ⟨rfl, by rw [AList.lookup_insert, Option.map_some]⟩
  · exact Or.inl (by rw [AList.lookup_insert_ne hk])

/-- **The footprint of a step.** -/
theorem touches {b : Action} (h : step cfg b m = some m') (hr : b ≠ .restart) (loc : Location) :
    m'.disk.shows loc = m.disk.shows loc ∨ Touches cfg m m' b loc (m'.disk.shows loc) := by
  cases stepped h with
  | post | access | requestExport | downloadExit | packageExit | exportExit => exact Or.inl rfl
  | restart => exact absurd rfl hr
  | @handle env e q m' hq hclock hs =>
    have hpopped : (m.popped env q).disk.shows loc = m.disk.shows loc := rfl
    rw [← hpopped]
    exact hs.touches.imp_right (·.of_slot)
  | @dropExport path =>
    cases loc with
    | raw _ | dir _ | file _ _ => exact Or.inl rfl
    | clip p =>
      by_cases hp : p = path
      · subst hp
        simp only [Disk.shows, AList.lookup_erase, Option.map_none]
        exact Or.inr .dropped
      · left
        simp only [Disk.shows, AList.lookup_erase_ne hp]
  | @downloadWrite w f hw =>
    cases loc with
    | clip _ | dir _ | file _ _ => exact Or.inl rfl
    | raw name =>
      rcases lookup_insert_or m.disk.raw w.outputPath name f Content.file with he | ⟨rfl, he⟩
      · exact Or.inl he
      · simp only [Disk.shows, he]
        exact Or.inr (.recorded hw)
  | @packageWrite w p hw =>
    cases loc with
    | clip _ | raw _ => exact Or.inl rfl
    | dir name =>
      rcases lookup_insert_or m.disk.dirs w.outputDir name p fun _ => Content.directory with
        he | ⟨rfl, he⟩
      · exact Or.inl he
      · simp only [Disk.shows, he]
        exact Or.inr (.entered hw)
    | file dir name =>
      by_cases hd : dir = w.outputDir
      · subst hd
        simp only [Disk.shows, AList.lookup_insert, Option.bind_some]
        exact Or.inr (.packaged hw)
      · left
        simp only [Disk.shows, AList.lookup_insert_ne hd]
  | @exportWrite w f hw =>
    cases loc with
    | raw _ | dir _ | file _ _ => exact Or.inl rfl
    | clip path =>
      rcases lookup_insert_or m.disk.exports w.outputPath path ⟨f, w⟩ Content.clip with
        he | ⟨rfl, he⟩
      · exact Or.inl he
      · simp only [Disk.shows, he]
        exact Or.inr (.clipped hw)

end Machine

end VisionPlayback
