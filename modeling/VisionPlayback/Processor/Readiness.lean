import VisionPlayback.Processor.Ownership

/-!
# What Ready promises

The status means that the manifest is written and servable. The slot that
announces it after a package run takes the job out of the table before it makes
the skip list, so its own eviction pass may remove the package it announces.
-/

namespace VisionPlayback.Machine

open Lib StreamCache

/-- The slot of a successful package run announces Ready, and the package is on
disk when it does. -/
def AnnouncesPackage (cfg : Config) (t : Transition Machine Action) : Prop :=
  ∀ env w key err q, t.action = .handle env →
    t.pre.queue = .packageFinished w key true err :: q → dashExists key t.pre.disk = true →
    .emit (.statusChanged key.hex .ready (mpdUrl key cfg.hostBase)) ∈ t.post.calls ∧
      dashExists key t.post.disk = true

/-- The pass of that slot comes to the finished package and leaves no manifest of it. -/
structure FinishedInReach (cfg : Config) (env : Env) (m : Machine) (key : PlaybackKey) : Prop where
  capped : cfg.maxDownloadsBytes ≠ 0
  idle : ∀ accessMs, m.lastAccessMs.lookup key.hex = some accessMs →
    ¬ env.nowMs - accessMs ≤ kAccessTtlMs
  notExported : key.hex ∉ m.exportingRefcount
  /-- Removing the older packages that no other key protects does not bring the
  total within the capacity. -/
  due : ∃ older e newer, env.evict.sort.sort (listEntries m.disk) = older ++ e :: newer ∧
    e.hex = key.hex ∧
    (drain cfg.maxDownloadsBytes (((m.beforeEvict key).skipKeys env).map (·.hex))
      env.evict.remove).StaysOver (totalBytes (listEntries m.disk)) older
  /-- The removal succeeds, or fails once the manifest is gone. -/
  lost : ∀ p q, m.disk.dirs.lookup (dashDir key) = some p →
    (env.evict.remove (dashDir key)).leftover p = some q → hasManifest q = false

def SparesFinished (cfg : Config) (t : Transition Machine Action) : Prop :=
  ∀ env w key err q, t.action = .handle env →
    t.pre.queue = .packageFinished w key true err :: q → dashExists key t.pre.disk = true →
    ¬ FinishedInReach cfg env t.pre key

variable {m m' : Machine} {cfg : Config}

/-- The finished key itself is skipped only for a recent access or an export. -/
theorem mem_skipKeys_beforeEvict {env : Env} {key : PlaybackKey} :
    key ∈ (m.beforeEvict key).skipKeys env ↔
      (∃ accessMs, m.lastAccessMs.lookup key.hex = some accessMs ∧
        env.nowMs - accessMs ≤ kAccessTtlMs) ∨ key.hex ∈ m.exportingRefcount := by
  have hmap : ∀ l : List String, key ∈ l.map (⟨·⟩ : String → PlaybackKey) ↔ key.hex ∈ l := by
    intro l
    rw [List.mem_map]
    constructor
    · rintro ⟨hex, hmem, rfl⟩
      exact hmem
    · exact fun hmem => ⟨key.hex, hmem, rfl⟩
  have hjob : key ∉ (m.activeJobs.erase key).keys := by
    rw [← AList.mem_keys, AList.mem_erase]
    exact fun h => h.1 rfl
  have haccess : key.hex ∈ Table.retain (recentlyAccessed env.nowMs) m.lastAccessMs ↔
      ∃ accessMs, m.lastAccessMs.lookup key.hex = some accessMs ∧
        env.nowMs - accessMs ≤ kAccessTtlMs := by
    rw [Table.mem_iff_lookup]
    simp only [Table.lookup_retain, Option.filter_eq_some_iff, recentlyAccessed,
      decide_eq_true_eq]
  simp only [skipKeys, beforeEvict, List.mem_append, hjob, false_or, hmap]
  rw [← AList.mem_keys, haccess, ← AList.mem_keys]

theorem finishedInReach_iff {env : Env} {key : PlaybackKey} : FinishedInReach cfg env m key ↔
    Evicts cfg.maxDownloadsBytes env.evict ((m.beforeEvict key).skipKeys env) m.disk key := by
  have hskip : key ∈ (m.beforeEvict key).skipKeys env ↔ _ := mem_skipKeys_beforeEvict
  constructor
  · intro h
    have hnot : key ∉ (m.beforeEvict key).skipKeys env := by
      rw [hskip]
      rintro (⟨accessMs, ha, hle⟩ | hx)
      · exact h.idle accessMs ha hle
      · exact h.notExported hx
    exact ⟨⟨h.capped, hnot, h.due⟩, h.lost⟩
  · intro ⟨⟨hcap, hnot, hdue⟩, hlost⟩
    have hnot : key ∉ (m.beforeEvict key).skipKeys env := hnot
    rw [hskip, not_or] at hnot
    exact ⟨hcap, fun accessMs ha hle => hnot.1 ⟨accessMs, ha, hle⟩, hnot.2, hdue, hlost⟩

/-- The slot of a successful package run, whose job is in the table. -/
theorem packaged_of_step {env : Env} {w : Nat} {key : PlaybackKey} {err : String}
    {q : List Event} (hi : Ownership m) (hs : Machine.step cfg (.handle env) m = some m')
    (hq : m.queue = .packageFinished w key true err :: q) :
    m' = (((m.popped env q).beforeEvict key).evict cfg env).statusChanged key .ready
      (mpdUrl key cfg.hostBase) := by
  cases stepped hs with
  | handle hq' hclock hd =>
    obtain ⟨rfl, rfl⟩ := List.cons.inj (hq.symm.trans hq')
    obtain ⟨-, job, hjob, -⟩ := hi.spend env hq fun _ => rfl
    cases hd with
    | packageFinished hh =>
      cases hh with
      | ignored hnone => exact absurd (hjob.symm.trans hnone) (by simp)
      | failed hj hok => cases hok
      | ready hj hok => rfl

/-- What the pass of that slot removes. -/
theorem mem_calls_removed {env : Env} {w : Nat} {key : PlaybackKey} {err hex : String}
    {q : List Event} (hi : Ownership m) (hs : Machine.step cfg (.handle env) m = some m')
    (hq : m.queue = .packageFinished w key true err :: q) : .removed hex ∈ m'.calls ↔
      Attempts cfg.maxDownloadsBytes env.evict ((m.beforeEvict key).skipKeys env) m.disk hex ∧
        (env.evict.remove hex).succeeds = true := by
  have hremoved : hex ∈ (evictToCapacity cfg.maxDownloadsBytes env.evict
      ((m.beforeEvict key).skipKeys env) (deleteMp4 key m.disk)).2 ↔ _ :=
    mem_evictToCapacity_snd hex
  have hcalls : m'.calls = (evictToCapacity cfg.maxDownloadsBytes env.evict
      ((m.beforeEvict key).skipKeys env) (deleteMp4 key m.disk)).2.map .removed ++
        [.emit (.statusChanged key.hex .ready (mpdUrl key cfg.hostBase))] := by
    rw [packaged_of_step hi hs hq]
    rfl
  rw [hcalls, List.mem_append, List.mem_singleton, List.mem_map]
  refine Iff.trans ⟨?_, fun h => Or.inl ⟨hex, h, rfl⟩⟩ hremoved
  rintro (⟨hex', h, he⟩ | he)
  · cases he
    exact h
  · cases he

theorem announcesPackage_iff {d : Disk} {tr : List (Transition Machine Action)}
    (h : (system cfg).Run (start d) tr m) :
    ∀ t ∈ tr, AnnouncesPackage cfg t ↔ SparesFinished cfg t := by
  intro t ht
  obtain ⟨hr, hs⟩ := h.transition ht
  have hi : Ownership t.pre := ownership hr
  have hslot : ∀ env w key err q, t.action = .handle env →
      t.pre.queue = .packageFinished w key true err :: q → dashExists key t.pre.disk = true →
      (.emit (.statusChanged key.hex .ready (mpdUrl key cfg.hostBase)) ∈ t.post.calls ∧
          dashExists key t.post.disk = true ↔
        ¬ FinishedInReach cfg env t.pre key) := by
    intro env w key err q ha hq hdash
    rw [ha] at hs
    rw [packaged_of_step hi hs hq, finishedInReach_iff]
    have hemit : Call.emit (.statusChanged key.hex .ready (mpdUrl key cfg.hostBase)) ∈
        ((((t.pre.popped env q).beforeEvict key).evict cfg env).statusChanged key .ready
          (mpdUrl key cfg.hostBase)).calls := List.mem_append_right _ List.mem_cons_self
    rw [and_iff_right hemit]
    exact dashExists_evictToCapacity_iff (d := deleteMp4 key t.pre.disk) hdash
  constructor
  · exact fun hp env w key err q ha hq hdash =>
      (hslot env w key err q ha hq hdash).mp (hp env w key err q ha hq hdash)
  · exact fun hc env w key err q ha hq hdash =>
      (hslot env w key err q ha hq hdash).mpr (hc env w key err q ha hq hdash)

/-- A recording whose package alone is over the capacity. -/
def oversizedPackage : List Action :=
  [.post (Sample.request "00000000000000aa"), .handle Sample.env,
    .downloadExit (Sample.downloader 0 "00000000000000aa") true "", .handle Sample.env,
    .packageWrite (Sample.packager 1 "00000000000000aa") (Sample.package 0),
    .packageExit (Sample.packager 1 "00000000000000aa") true "", .handle Sample.env]

theorem announcesPackage_iff_oversized :
    ∃ h : ((system Sample.smallConfig).replay (start {}) oversizedPackage).isSome = true,
      ∀ t ∈ (((system Sample.smallConfig).replay (start {}) oversizedPackage).get h).1,
        AnnouncesPackage Sample.smallConfig t ↔ SparesFinished Sample.smallConfig t :=
  ⟨by decide, announcesPackage_iff (System.run_get _)⟩

theorem not_announcesPackage : ¬ ∀ (cfg : Config) (d : Disk)
    (tr : List (Transition Machine Action)) (m : Machine), (system cfg).Run (start d) tr m →
    ∀ t ∈ tr, AnnouncesPackage cfg t := by
  intro hall
  have hsome : ((system Sample.smallConfig).replay (start {}) oversizedPackage).isSome = true := by
    decide +revert
  have hne : (((system Sample.smallConfig).replay (start {}) oversizedPackage).get hsome).1 ≠ [] := by
    decide +revert
  have h := hall _ _ _ _ (System.run_get hsome) _ (List.head_mem hne) Sample.env 1
    ⟨"00000000000000aa"⟩ "" [] rfl (by decide +revert) (by decide +revert)
  exact absurd h.2 (by decide +revert)

end VisionPlayback.Machine
