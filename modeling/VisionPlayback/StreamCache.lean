import Mathlib.Data.UInt
import VisionPlayback.Domain
import VisionPlayback.Lib.Drain
import VisionPlayback.Lib.Table

/-!
# The on-disk stream cache

The downloads directory and the operations of the file-system stream cache on
it. Paths are relative to the downloads directory, which no operation changes.
The times, the outcome of each `removeRecursively` and the order that the sort leaves
among equal times are inputs. The removal of a single file, raw download or temporary
export, is taken to succeed.
-/

namespace VisionPlayback

open Lib

structure File where
  content : Bytes
  /-- `QFile::open` succeeds on it. -/
  readable : Bool := true
  deriving DecidableEq

/-- A directory of the downloads directory, with its files by relative path. -/
structure PackageDir where
  files : Table String File := ∅
  lastModified : Int
  deriving DecidableEq

/-- The arguments one exporter was started with. -/
structure ClipExport where
  requestId : Nat
  mpdPath : String
  outputPath : String
  startSec : Int
  endSec : Int
  deriving DecidableEq

/-- A temporary export, with the exporter that wrote it. No function of the
program reads `writer`. -/
structure ExportFile where
  file : File
  writer : ClipExport
  deriving DecidableEq

/-- The plain files, the directories and the files below `.exports`. -/
structure Disk where
  raw : Table String File := ∅
  dirs : Table String PackageDir := ∅
  exports : Table String ExportFile := ∅
  deriving DecidableEq

namespace StreamCache

def mp4Path (key : PlaybackKey) : String := key.hex ++ ".mp4"

def dashDir (key : PlaybackKey) : String := key.hex

def mpdUrl (key : PlaybackKey) (hostBase : String) : String :=
  hostBase ++ "/dash/" ++ key.hex ++ "/manifest.mpd"

/-- What `dashExists` asks of the manifest file. -/
def looksWellFormed (f : File) : Bool :=
  if f.content.length < 100 then false
  else if !f.readable then false
  else
    let header := f.content.take 10
    (utf8 "<?xml").isPrefixOf header || (utf8 "<MPD").isPrefixOf header

def hasManifest (p : PackageDir) : Bool :=
  match p.files.lookup "manifest.mpd" with
  | none => false
  | some f => looksWellFormed f

def dashExists (key : PlaybackKey) (d : Disk) : Bool :=
  match d.dirs.lookup (dashDir key) with
  | none => false
  | some p => hasManifest p

def mp4Exists (key : PlaybackKey) (d : Disk) : Bool := decide (mp4Path key ∈ d.raw)

/-- `QFile::remove`; the file is gone afterwards. -/
def deleteMp4 (key : PlaybackKey) (d : Disk) : Disk := { d with raw := d.raw.erase (mp4Path key) }

/-- `QDir().mkpath` of a directory of the downloads directory. -/
def mkpath (name : String) (time : Int) (d : Disk) : Disk :=
  if name ∈ d.dirs then d else { d with dirs := d.dirs.insert name { lastModified := time } }

theorem mp4Path_inj {key key' : PlaybackKey} (h : mp4Path key = mp4Path key') : key = key' := by
  have hhex : key.hex = key'.hex := (String.append_left_inj ".mp4").mp h
  cases key
  cases key'
  exact congrArg PlaybackKey.mk hhex

theorem dashDir_inj {key key' : PlaybackKey} (h : dashDir key = dashDir key') : key = key' := by
  cases key
  cases key'
  exact congrArg PlaybackKey.mk h

theorem mem_dirs_of_dashExists {key : PlaybackKey} {d : Disk} (h : dashExists key d = true) :
    dashDir key ∈ d.dirs := by
  unfold dashExists at h
  cases hd : d.dirs.lookup (dashDir key) with
  | none => rw [hd] at h; cases h
  | some p => exact Table.mem_iff_lookup.mpr ⟨p, hd⟩

/-- The raw download of one key is never the package directory of another. -/
theorem mp4Path_ne_dashDir {key key' : PlaybackKey} (h : isHex16 key.hex = true)
    (h' : isHex16 key'.hex = true) : mp4Path key ≠ dashDir key' := by
  simp only [isHex16, Bool.and_eq_true, decide_eq_true_eq] at h h'
  intro he
  have hl := congrArg (fun s : String => s.toList.length) he
  have hsuffix : ".mp4".toList.length = 4 := by decide
  simp only [mp4Path, dashDir, String.toList_append, List.length_append, h.1, h'.1, hsuffix] at hl
  omega

theorem mem_mkpath {name n : String} {time : Int} {d : Disk} :
    n ∈ (mkpath name time d).dirs ↔ n = name ∨ n ∈ d.dirs := by
  unfold mkpath
  split
  · next hmem =>
    constructor
    · exact Or.inr
    · rintro (rfl | h)
      · exact hmem
      · exact h
  · exact AList.mem_insert d.dirs

theorem mkpath_raw (name : String) (time : Int) (d : Disk) :
    (mkpath name time d).raw = d.raw := by
  unfold mkpath
  split <;> rfl

theorem mkpath_exports (name : String) (time : Int) (d : Disk) :
    (mkpath name time d).exports = d.exports := by
  unfold mkpath
  split <;> rfl

/-- A new directory has no manifest, and one that is there stays. -/
theorem dashExists_mkpath (key : PlaybackKey) (name : String) (time : Int) (d : Disk) :
    dashExists key (mkpath name time d) = dashExists key d := by
  unfold mkpath
  split
  · rfl
  · next hmem =>
    unfold dashExists
    rw [Table.lookup_insert_eq]
    by_cases hk : dashDir key = name
    · rw [if_pos hk, hk, AList.lookup_eq_none.mpr hmem]
      rfl
    · rw [if_neg hk]

/-! ## Eviction -/

/-- What one `removeRecursively` does: everything goes, or some files stay and
the call returns false. -/
inductive Removal
  | done
  | failed (keep : String → Bool) (lastModified : Int)

/-- What is left of a directory. -/
def Removal.leftover : Removal → PackageDir → Option PackageDir
  | .done, _ => none
  | .failed keep lastModified, p => some ⟨p.files.retain fun name _ => keep name, lastModified⟩

def Removal.succeeds : Removal → Bool
  | .done => true
  | .failed _ _ => false

def removeRecursively (r : Removal) (name : String) (d : Disk) : Disk :=
  match (d.dirs.lookup name).bind r.leftover with
  | none => { d with dirs := d.dirs.erase name }
  | some p => { d with dirs := d.dirs.insert name p }

structure Entry where
  hex : String
  sizeBytes : UInt64
  lastModified : Int
  deriving DecidableEq

/-- The walk over one directory; `quint64` sums wrap. -/
def sizeBytes (p : PackageDir) : UInt64 :=
  (p.files.entries.map fun f => UInt64.ofNat f.2.content.length).sum

def listEntries (d : Disk) : List Entry :=
  (d.dirs.entries.filter fun e => matchesHex16 e.1).map fun e =>
    ⟨e.1, sizeBytes e.2, e.2.lastModified⟩

def totalBytes (es : List Entry) : UInt64 := (es.map (·.sizeBytes)).sum

/-- The choices an eviction pass leaves to its surroundings. -/
structure EvictEnv where
  sort : SortBy Entry.lastModified
  remove : String → Removal

/-- The removal loop; the list it returns names the directories that are gone. -/
def evictLoop (maxBytes : UInt64) (skip : List String) (remove : String → Removal) :
    List Entry → UInt64 → Disk → Disk × List String
  | [], _, d => (d, [])
  | e :: es, total, d =>
    if total ≤ maxBytes then (d, [])
    else if e.hex ∈ skip then evictLoop maxBytes skip remove es total d
    else
      let d := removeRecursively (remove e.hex) e.hex d
      if (remove e.hex).succeeds then
        let (d, removed) := evictLoop maxBytes skip remove es (total - e.sizeBytes) d
        (d, e.hex :: removed)
      else evictLoop maxBytes skip remove es total d

def evictToCapacity (maxBytes : UInt64) (env : EvictEnv) (skipKeys : List PlaybackKey)
    (d : Disk) : Disk × List String :=
  if maxBytes = 0 then (d, [])
  else
    let skip := skipKeys.map (·.hex)
    let entries := listEntries d
    let total := totalBytes entries
    if total ≤ maxBytes then (d, [])
    else evictLoop maxBytes skip env.remove (env.sort.sort entries) total d

/-! ## What a pass does to each directory -/

/-- The pass as a drain of the listed entries. -/
def drain (maxBytes : UInt64) (skip : List String) (remove : String → Removal) :
    Drain Entry UInt64 where
  bound := maxBytes
  protect e := decide (e.hex ∈ skip)
  removable e := (remove e.hex).succeeds
  size := (·.sizeBytes)

/-- The pass tries to remove the directory `hex`: it is listed, not in the skip
list, and up to its turn the total of what is left stays over the capacity. -/
def Attempts (maxBytes : UInt64) (env : EvictEnv) (skipKeys : List PlaybackKey) (d : Disk)
    (hex : String) : Prop :=
  maxBytes ≠ 0 ∧ ⟨hex⟩ ∉ skipKeys ∧ ∃ older e newer,
    env.sort.sort (listEntries d) = older ++ e :: newer ∧ e.hex = hex ∧
    (drain maxBytes (skipKeys.map (·.hex)) env.remove).StaysOver
      (totalBytes (listEntries d)) older

theorem removeRecursively_lookup (r : Removal) (name : String) (d : Disk) (n : String) :
    (removeRecursively r name d).dirs.lookup n =
      if n = name then (d.dirs.lookup n).bind r.leftover else d.dirs.lookup n := by
  unfold removeRecursively
  by_cases hn : n = name
  · subst hn
    cases h : (d.dirs.lookup n).bind r.leftover with
    | none => simp
    | some p => simp
  · cases h : (d.dirs.lookup name).bind r.leftover with
    | none => simp [hn]
    | some p => simp [hn, AList.lookup_insert_ne]

theorem removeRecursively_raw (r : Removal) (name : String) (d : Disk) :
    (removeRecursively r name d).raw = d.raw ∧
      (removeRecursively r name d).exports = d.exports := by
  unfold removeRecursively
  split <;> exact ⟨rfl, rfl⟩

theorem leftover_leftover (r : Removal) (o : Option PackageDir) :
    (o.bind r.leftover).bind r.leftover = o.bind r.leftover := by
  cases o with
  | none => rfl
  | some p =>
    cases r with
    | done => rfl
    | failed keep t =>
      simp only [Option.bind_some, Removal.leftover, Option.some.injEq, PackageDir.mk.injEq,
        and_true]
      apply AList.ext
      simp only [Table.entries_retain, List.filter_filter, Bool.and_self]

variable {maxBytes : UInt64} {skip : List String} {remove : String → Removal}

/-- The directories the loop goes for, by name. -/
def attemptedNames (maxBytes : UInt64) (skip : List String) (remove : String → Removal)
    (es : List Entry) (total : UInt64) : List String :=
  ((drain maxBytes skip remove).attempted es total).map (·.hex)

theorem attemptedNames_cons (e : Entry) (es : List Entry) (total : UInt64) :
    attemptedNames maxBytes skip remove (e :: es) total =
      if total ≤ maxBytes then []
      else if e.hex ∈ skip then attemptedNames maxBytes skip remove es total
      else e.hex :: attemptedNames maxBytes skip remove es
        (if (remove e.hex).succeeds then total - e.sizeBytes else total) := by
  simp only [attemptedNames, Drain.attempted_cons, drain, decide_eq_true_eq]
  split
  · rfl
  split
  · rfl
  · next hs => cases h : (remove e.hex).succeeds <;> simp [Drain.charge, hs, h]

/-- One removal, and then a walk that may meet the same name again. -/
theorem lookup_after_removal {name : String} {names : List String} {d d' : Disk}
    (h : ∀ n, d'.dirs.lookup n = if n ∈ names
      then ((removeRecursively (remove name) name d).dirs.lookup n).bind (remove n).leftover
      else (removeRecursively (remove name) name d).dirs.lookup n) (n : String) :
    d'.dirs.lookup n = if n ∈ name :: names then (d.dirs.lookup n).bind (remove n).leftover
      else d.dirs.lookup n := by
  rw [h n, removeRecursively_lookup]
  by_cases hn : n = name
  · subst hn
    simp only [if_true, List.mem_cons, true_or]
    split
    · exact leftover_leftover _ _
    · rfl
  · simp [hn]

theorem evictLoop_lookup (es : List Entry) (total : UInt64) (d : Disk) (n : String) :
    (evictLoop maxBytes skip remove es total d).1.dirs.lookup n =
      if n ∈ attemptedNames maxBytes skip remove es total
      then (d.dirs.lookup n).bind (remove n).leftover else d.dirs.lookup n := by
  induction es generalizing total d n with
  | nil => simp [evictLoop, attemptedNames, Drain.attempted]
  | cons e es ih =>
    rw [attemptedNames_cons]
    unfold evictLoop
    split
    · simp
    split
    · exact ih total d n
    · cases hr : (remove e.hex).succeeds with
      | true =>
        simp only [if_true]
        exact lookup_after_removal (ih _ _) n
      | false =>
        simp only [Bool.false_eq_true, if_false]
        exact lookup_after_removal (ih _ _) n

/-- The loop names the directories it went for with success, in order. -/
theorem evictLoop_snd (es : List Entry) (total : UInt64) (d : Disk) :
    (evictLoop maxBytes skip remove es total d).2 =
      (((drain maxBytes skip remove).attempted es total).filter
        fun e => (remove e.hex).succeeds).map (·.hex) := by
  induction es generalizing total d with
  | nil => rfl
  | cons e es ih =>
    rw [Drain.attempted_cons]
    unfold evictLoop
    by_cases hle : total ≤ maxBytes
    · simp [hle, drain]
    by_cases hs : e.hex ∈ skip
    · simpa [hle, hs, drain] using ih total d
    · cases hr : (remove e.hex).succeeds with
      | true => simpa [hle, hs, hr, drain, Drain.charge] using ih (total - e.sizeBytes) _
      | false => simpa [hle, hs, hr, drain, Drain.charge] using ih total _

theorem mem_evictLoop_snd (es : List Entry) (total : UInt64) (d : Disk) (n : String) :
    n ∈ (evictLoop maxBytes skip remove es total d).2 ↔
      n ∈ attemptedNames maxBytes skip remove es total ∧ (remove n).succeeds = true := by
  simp only [evictLoop_snd, attemptedNames, List.mem_map, List.mem_filter]
  constructor
  · rintro ⟨e, ⟨he, hr⟩, rfl⟩
    exact ⟨⟨e, he, rfl⟩, hr⟩
  · rintro ⟨⟨e, he, rfl⟩, hr⟩
    exact ⟨e, ⟨he, hr⟩, rfl⟩

/-- The loop touches directories alone. -/
theorem evictLoop_raw (es : List Entry) (total : UInt64) (d : Disk) :
    (evictLoop maxBytes skip remove es total d).1.raw = d.raw ∧
      (evictLoop maxBytes skip remove es total d).1.exports = d.exports := by
  induction es generalizing total d with
  | nil => exact ⟨rfl, rfl⟩
  | cons e es ih =>
    have hrm := removeRecursively_raw (remove e.hex) e.hex d
    unfold evictLoop
    split
    · exact ⟨rfl, rfl⟩
    split
    · exact ih total d
    · cases (remove e.hex).succeeds with
      | true => exact ⟨(ih _ _).1.trans hrm.1, (ih _ _).2.trans hrm.2⟩
      | false => exact ⟨(ih _ _).1.trans hrm.1, (ih _ _).2.trans hrm.2⟩

section Pass

variable {env : EvictEnv} {skipKeys : List PlaybackKey} {d : Disk}

theorem mem_attemptedNames {total : UInt64} {es : List Entry} {hex : String} :
    hex ∈ attemptedNames maxBytes (skipKeys.map (·.hex)) remove es total ↔
      ⟨hex⟩ ∉ skipKeys ∧ ∃ older e newer, es = older ++ e :: newer ∧ e.hex = hex ∧
        (drain maxBytes (skipKeys.map (·.hex)) remove).StaysOver total older := by
  have hskip : hex ∈ skipKeys.map (·.hex) ↔ ⟨hex⟩ ∈ skipKeys := by
    simp only [List.mem_map]
    constructor
    · rintro ⟨k, hk, rfl⟩
      exact hk
    · intro h
      exact ⟨⟨hex⟩, h, rfl⟩
  simp only [attemptedNames, List.mem_map, Drain.mem_attempted]
  constructor
  · rintro ⟨e, ⟨older, newer, he, hp, hs⟩, rfl⟩
    have hp : e.hex ∉ skipKeys.map (·.hex) := by simpa [drain] using hp
    exact ⟨mt hskip.mpr hp, older, e, newer, he, rfl, hs⟩
  · rintro ⟨hp, older, e, newer, he, rfl, hs⟩
    have hp : e.hex ∉ skipKeys.map (·.hex) := mt hskip.mp hp
    exact ⟨e, ⟨older, newer, he, by simpa [drain] using hp, hs⟩, rfl⟩

/-- A pass is its removal loop, with the three early ends folded in. -/
theorem evictToCapacity_eq : evictToCapacity maxBytes env skipKeys d =
    if maxBytes = 0 then (d, []) else
      evictLoop maxBytes (skipKeys.map (·.hex)) env.remove (env.sort.sort (listEntries d))
        (totalBytes (listEntries d)) d := by
  unfold evictToCapacity
  dsimp only
  split
  · rfl
  split
  · next h =>
    cases env.sort.sort (listEntries d) with
    | nil => rfl
    | cons e es => simp [evictLoop, h]
  · rfl

open Classical in
/-- After a pass a directory is as its removal left it, or untouched. -/
theorem evictToCapacity_lookup (n : String) :
    (evictToCapacity maxBytes env skipKeys d).1.dirs.lookup n =
      if Attempts maxBytes env skipKeys d n
      then (d.dirs.lookup n).bind (env.remove n).leftover else d.dirs.lookup n := by
  rw [evictToCapacity_eq]
  by_cases h0 : maxBytes = 0
  · simp [h0, Attempts]
  · rw [if_neg h0, evictLoop_lookup]
    congr 1
    simp only [mem_attemptedNames, Attempts, h0, ne_eq, not_false_eq_true, true_and]

theorem mem_evictToCapacity_snd (n : String) :
    n ∈ (evictToCapacity maxBytes env skipKeys d).2 ↔
      Attempts maxBytes env skipKeys d n ∧ (env.remove n).succeeds = true := by
  rw [evictToCapacity_eq]
  by_cases h0 : maxBytes = 0
  · simp [h0, Attempts]
  · rw [if_neg h0, mem_evictLoop_snd]
    simp only [mem_attemptedNames, Attempts, h0, ne_eq, not_false_eq_true, true_and]

/-- A pass goes for directories with the name of a key only. -/
theorem matchesHex16_of_attempts {hex : String} (h : Attempts maxBytes env skipKeys d hex) :
    matchesHex16 hex = true := by
  obtain ⟨-, -, older, e, newer, hsort, rfl, -⟩ := h
  have hmem : e ∈ listEntries d := by
    rw [← (env.sort.perm _).mem_iff, hsort]
    exact List.mem_append_right _ List.mem_cons_self
  obtain ⟨f, hf, rfl⟩ := List.mem_map.mp hmem
  exact (List.mem_filter.mp hf).2

theorem evictToCapacity_raw : (evictToCapacity maxBytes env skipKeys d).1.raw = d.raw ∧
    (evictToCapacity maxBytes env skipKeys d).1.exports = d.exports := by
  rw [evictToCapacity_eq]
  split
  · exact ⟨rfl, rfl⟩
  · exact evictLoop_raw _ _ _

theorem mem_of_mem_evictToCapacity {n : String}
    (h : n ∈ (evictToCapacity maxBytes env skipKeys d).1.dirs) : n ∈ d.dirs := by
  rw [Table.mem_iff_lookup] at h ⊢
  obtain ⟨p, hp⟩ := h
  rw [evictToCapacity_lookup] at hp
  split at hp
  · obtain ⟨p', hp', -⟩ := Option.bind_eq_some_iff.mp hp
    exact ⟨p', hp'⟩
  · exact ⟨p, hp⟩

/-- A key in the skip list keeps its directory as it is. -/
theorem evictToCapacity_skipped {key : PlaybackKey} (h : key ∈ skipKeys) :
    (evictToCapacity maxBytes env skipKeys d).1.dirs.lookup key.hex = d.dirs.lookup key.hex := by
  rw [evictToCapacity_lookup, if_neg]
  exact fun ha => ha.2.1 h

/-- A manifest is one of the files that a failed removal keeps, or it is gone. -/
theorem hasManifest_retain (p : PackageDir) (keep : String → Bool) (time : Int) :
    hasManifest ⟨p.files.retain fun name _ => keep name, time⟩ =
      (hasManifest p && keep "manifest.mpd") := by
  simp only [hasManifest, Table.lookup_retain]
  cases p.files.lookup "manifest.mpd" with
  | none => rfl
  | some f => cases keep "manifest.mpd" <;> simp [Option.filter]

theorem hasManifest_leftover {r : Removal} {p q : PackageDir} (h : r.leftover p = some q)
    (hm : hasManifest q = true) : hasManifest p = true := by
  cases r with
  | done => cases h
  | failed keep t =>
    obtain rfl := Option.some.inj h
    rw [hasManifest_retain, Bool.and_eq_true] at hm
    exact hm.1

/-- No pass makes a package appear. -/
theorem dashExists_of_evictToCapacity {key : PlaybackKey}
    (h : dashExists key (evictToCapacity maxBytes env skipKeys d).1 = true) :
    dashExists key d = true := by
  unfold dashExists at h ⊢
  rw [evictToCapacity_lookup] at h
  cases hd : d.dirs.lookup (dashDir key) with
  | none => simp [hd] at h
  | some p =>
    by_cases ha : Attempts maxBytes env skipKeys d (dashDir key)
    · rw [if_pos ha, hd, Option.bind_some] at h
      cases hl : (env.remove (dashDir key)).leftover p with
      | none => rw [hl] at h; cases h
      | some q =>
        rw [hl] at h
        exact hasManifest_leftover hl h
    · rwa [if_neg ha, hd] at h

/-- The pass goes for the package of `key`, and the removal leaves no servable
manifest: it succeeds, or it fails after the manifest is gone. -/
def Evicts (maxBytes : UInt64) (env : EvictEnv) (skipKeys : List PlaybackKey) (d : Disk)
    (key : PlaybackKey) : Prop :=
  Attempts maxBytes env skipKeys d (dashDir key) ∧
    ∀ p q, d.dirs.lookup (dashDir key) = some p →
      (env.remove (dashDir key)).leftover p = some q → hasManifest q = false

theorem dashExists_evictToCapacity_iff {key : PlaybackKey} (h : dashExists key d = true) :
    dashExists key (evictToCapacity maxBytes env skipKeys d).1 = true ↔
      ¬ Evicts maxBytes env skipKeys d key := by
  unfold dashExists at h ⊢
  rw [evictToCapacity_lookup]
  cases hd : d.dirs.lookup (dashDir key) with
  | none => rw [hd] at h; cases h
  | some p =>
    rw [hd] at h
    by_cases ha : Attempts maxBytes env skipKeys d (dashDir key)
    · rw [if_pos ha, Option.bind_some]
      have hiff : Evicts maxBytes env skipKeys d key ↔
          ∀ q, (env.remove (dashDir key)).leftover p = some q → hasManifest q = false := by
        constructor
        · exact fun he q => he.2 p q hd
        · intro hq
          refine ⟨ha, fun p' q hp' => ?_⟩
          obtain rfl := Option.some.inj (hd.symm.trans hp')
          exact hq q
      rw [hiff]
      cases (env.remove (dashDir key)).leftover p with
      | none => simp
      | some q => simp
    · rw [if_neg ha]
      exact ⟨fun _ he => ha he.1, fun _ => h⟩

end Pass

end StreamCache

end VisionPlayback
