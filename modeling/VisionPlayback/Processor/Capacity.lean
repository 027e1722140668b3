import VisionPlayback.Eviction
import VisionPlayback.Processor.Readiness

/-!
# The capacity of the downloads directory

A pass counts package directories. The raw file of a recording goes away when its
package is ready; where the download or the packaging fails it stays, and no pass
counts it.
-/

namespace VisionPlayback.Machine

open Lib StreamCache

/-- A raw download whose key has no job. -/
def IsLeftover (jobs : Table PlaybackKey Job) (name : String) : Prop :=
  ∃ key : PlaybackKey, isHex16 key.hex = true ∧ name = mp4Path key ∧ key ∉ jobs

theorem take_mp4Path {key : PlaybackKey} (h : isHex16 key.hex = true) :
    String.ofList ((mp4Path key).toList.take 16) = key.hex := by
  have hlen : key.hex.toList.length = 16 := by
    simp only [isHex16, Bool.and_eq_true, decide_eq_true_eq] at h
    exact h.1
  rw [mp4Path, String.toList_append, List.take_left' hlen, String.ofList_toList]

instance (jobs : Table PlaybackKey Job) (name : String) : Decidable (IsLeftover jobs name) :=
  let key : PlaybackKey := ⟨String.ofList (name.toList.take 16)⟩
  decidable_of_iff (isHex16 key.hex = true ∧ name = mp4Path key ∧ key ∉ jobs) <| by
    refine ⟨fun h => ⟨key, h⟩, ?_⟩
    rintro ⟨key', hhex, rfl, hjob⟩
    have hkey : key = key' := congrArg PlaybackKey.mk (take_mp4Path hhex)
    rw [hkey]
    exact ⟨hhex, rfl, hjob⟩

/-- The bytes of the raw files that no job needs. -/
def leftoverBytes (jobs : Table PlaybackKey Job) (d : Disk) : ℕ :=
  ((d.raw.entries.filter fun e => decide (IsLeftover jobs e.1)).map
    fun e => e.2.content.length).sum

theorem leftoverBytes_congr {jobs : Table PlaybackKey Job} {d d' : Disk} (h : d.raw = d'.raw) :
    leftoverBytes jobs d = leftoverBytes jobs d' := by
  rw [leftoverBytes, h, leftoverBytes]

/-- What the downloads directory holds: packages, and raw files without a job. -/
def usage (m : Machine) : ℕ := bytesOf m.disk matchesHex16 + leftoverBytes m.activeJobs m.disk

/-- The pass of a finished package run, with a capacity and with removals that succeed. -/
structure Passes (cfg : Config) (t : Transition Machine Action) (env : Env) (key : PlaybackKey) :
    Prop where
  action : t.action = .handle env
  head : ∃ w err q, t.pre.queue = .packageFinished w key true err :: q
  capped : cfg.maxDownloadsBytes ≠ 0
  succeed : ∀ name, Attempts cfg.maxDownloadsBytes env.evict ((t.pre.beforeEvict key).skipKeys env)
    t.pre.disk name → (env.evict.remove name).succeeds = true

/-- After a pass the usage is within the capacity, or only skipped packages are left. -/
def BoundsUsage (cfg : Config) (t : Transition Machine Action) : Prop :=
  ∀ env key, Passes cfg t env key → usage t.post ≤ cfg.maxDownloadsBytes.toNat ∨
    ∀ name ∈ t.post.disk.dirs, matchesHex16 name = true →
      ⟨name⟩ ∈ (t.pre.beforeEvict key).skipKeys env

/-- Where a pass stops before a package it may remove, the packages it keeps leave room
for the raw files without a job. -/
def LeavesRoom (cfg : Config) (t : Transition Machine Action) : Prop :=
  ∀ env key, Passes cfg t env key →
    ∀ older newer, env.evict.sort.sort (listEntries t.pre.disk) = older ++ newer →
      (walk cfg.maxDownloadsBytes env.evict ((t.pre.beforeEvict key).skipKeys env)).StopsAt
        (totalBytes (listEntries t.pre.disk)) older →
      (∃ e ∈ newer, ⟨e.hex⟩ ∉ (t.pre.beforeEvict key).skipKeys env) →
      (bytesOf t.pre.disk fun name => matchesHex16 name && decide (name ∉
          gone cfg.maxDownloadsBytes env.evict ((t.pre.beforeEvict key).skipKeys env) older)) +
        leftoverBytes (t.pre.activeJobs.erase key) (deleteMp4 key t.pre.disk) ≤
          cfg.maxDownloadsBytes.toNat

variable {cfg : Config} {m : Machine} {t : Transition Machine Action} {env : Env}
  {key : PlaybackKey}

/-- The packages a pass leaves, and the raw files it does not see. -/
theorem usage_of_pass (hi : Ownership t.pre) (hs : step cfg t.action t.pre = some t.post)
    (hp : Passes cfg t env key) :
    (∀ name, name ∈ t.post.disk.dirs ↔ name ∈ (evictToCapacity cfg.maxDownloadsBytes env.evict
        ((t.pre.beforeEvict key).skipKeys env) (deleteMp4 key t.pre.disk)).1.dirs) ∧
      usage t.post = bytesOf (evictToCapacity cfg.maxDownloadsBytes env.evict
          ((t.pre.beforeEvict key).skipKeys env) (deleteMp4 key t.pre.disk)).1 matchesHex16 +
        leftoverBytes (t.pre.activeJobs.erase key) (deleteMp4 key t.pre.disk) := by
  obtain ⟨w, err, q, hq⟩ := hp.head
  rw [hp.action] at hs
  rw [packaged_of_step hi hs hq]
  refine ⟨fun name => Iff.rfl, ?_⟩
  exact congrArg (_ + ·) (leftoverBytes_congr evictToCapacity_raw.1)

/-- Every pass bounds what the downloads directory holds exactly when the packages it keeps
leave room for the raw files of failed jobs. -/
theorem boundsUsage_iff {d : Disk} {tr : List (Transition Machine Action)}
    (h : (system cfg).Run (start d) tr m) : ∀ t ∈ tr, BoundsUsage cfg t ↔ LeavesRoom cfg t := by
  intro t ht
  obtain ⟨hr, hs⟩ := h.transition ht
  refine forall_congr' fun env => forall_congr' fun key => forall_congr' fun hp => ?_
  obtain ⟨hdirs, husage⟩ := usage_of_pass (ownership hr) hs hp
  rw [husage]
  simp only [hdirs]
  exact bounded_iff_room (d := deleteMp4 key t.pre.disk) hp.capped hp.succeed _

/-- A finished key leaves no raw file: its own is deleted with its job. -/
theorem leftoverBytes_pass (key : PlaybackKey) {jobs : Table PlaybackKey Job} {d : Disk}
    (h : leftoverBytes jobs d = 0) : leftoverBytes (jobs.erase key) (deleteMp4 key d) = 0 := by
  rw [leftoverBytes, List.sum_eq_zero_iff, List.forall_mem_map] at h ⊢
  intro e he
  obtain ⟨hmem, hleft⟩ := List.mem_filter.mp he
  obtain ⟨key', hhex, hname, hjob⟩ := of_decide_eq_true hleft
  have hfile : (d.raw.erase (mp4Path key)).lookup e.1 = some e.2 := AList.mem_lookup_iff.mpr hmem
  have hne : e.1 ≠ mp4Path key := by
    intro heq
    rw [heq, AList.lookup_erase] at hfile
    cases hfile
  rw [AList.lookup_erase_ne hne] at hfile
  refine h e (List.mem_filter.mpr ⟨AList.mem_lookup_iff.mp hfile, decide_eq_true ?_⟩)
  refine ⟨key', hhex, hname, fun hold => hjob (AList.mem_erase.mpr ⟨?_, hold⟩)⟩
  rintro rfl
  exact hne hname

/-- Where no failed job has left anything the packages alone are counted, and counted right
as long as the total fits 64 bits. -/
theorem leavesRoom_of_no_leftover (hfits : bytesOf t.pre.disk matchesHex16 < 2 ^ 64)
    (h : leftoverBytes t.pre.activeJobs t.pre.disk = 0) : LeavesRoom cfg t := by
  intro env key hp older newer hsort hstop hnext
  rw [leftoverBytes_pass key h, Nat.add_zero, ← (toNat_left cfg.maxDownloadsBytes
    ((t.pre.beforeEvict key).skipKeys env) hfits hsort).2]
  exact UInt64.le_iff_toNat_le.mp hstop.within

namespace Sample

/-- Room for one package. -/
def roomyConfig : Config := { config with maxDownloadsBytes := 150 }

/-- A download that breaks off after sixty bytes, and one that is packaged. -/
def brokenDownload : List Action :=
  [.post (request "00000000000000aa"), .handle Sample.env,
    .downloadWrite (downloader 0 "00000000000000aa") { content := List.replicate 60 0 },
    .downloadExit (downloader 0 "00000000000000aa") false "connection lost", .handle Sample.env,
    .post (request "00000000000000bb"), .handle Sample.env,
    .downloadExit (downloader 1 "00000000000000bb") true "", .handle Sample.env,
    .packageWrite (packager 2 "00000000000000bb") (package 0),
    .packageExit (packager 2 "00000000000000bb") true "", .handle Sample.env]

end Sample

theorem boundsUsage_iff_brokenDownload :
    ∃ h : ((system Sample.roomyConfig).replay (start {}) Sample.brokenDownload).isSome = true,
      ∀ t ∈ (((system Sample.roomyConfig).replay (start {}) Sample.brokenDownload).get h).1,
        BoundsUsage Sample.roomyConfig t ↔ LeavesRoom Sample.roomyConfig t :=
  ⟨by decide, boundsUsage_iff (System.run_get _)⟩

theorem not_boundsUsage : ¬ ∀ (cfg : Config) (d : Disk) (tr : List (Transition Machine Action))
    (m : Machine), (system cfg).Run (start d) tr m → ∀ t ∈ tr, BoundsUsage cfg t := by
  intro hall
  have hsome : ((system Sample.roomyConfig).replay (start {})
    Sample.brokenDownload).isSome = true := by decide
  have hne : (((system Sample.roomyConfig).replay (start {})
    Sample.brokenDownload).get hsome).1 ≠ [] := by decide +revert
  have hbound := hall _ _ _ _ (System.run_get hsome) _ (List.head_mem hne) Sample.env
    ⟨"00000000000000bb"⟩ ⟨rfl, ⟨2, "", [], by decide +revert⟩, by decide, fun _ _ => rfl⟩
  rcases hbound with hle | honly
  · exact absurd hle (by decide +revert)
  · exact absurd (honly "00000000000000bb" (by decide +revert) (by decide))
      (by decide +revert)

end VisionPlayback.Machine
