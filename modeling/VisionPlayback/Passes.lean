import VisionPlayback.Eviction

/-!
# One eviction pass after another

Passes with several capacities, as a daemon makes them that is started again with another
one. Removals succeed here: what a failed one leaves behind is for the next pass a package
like any other.
-/

namespace VisionPlayback.StreamCache

open Lib

/-- The two disks have the same contents, in whatever order they are listed. -/
structure SameDisk (d d' : Disk) : Prop where
  raw : d.raw = d'.raw
  exports : d.exports = d'.exports
  dirs : ∀ name, d.dirs.lookup name = d'.dirs.lookup name

/-- No two packages have been modified at one time. -/
def NoTies (d : Disk) : Prop :=
  ∀ e ∈ listEntries d, ∀ e' ∈ listEntries d, e.lastModified = e'.lastModified → e = e'

instance (d : Disk) : Decidable (NoTies d) := by
  unfold NoTies
  infer_instance

variable {maxBytes : UInt64} {env : EvictEnv} {skipKeys : List PlaybackKey} {d d' : Disk}

/-! ## What a pass keeps -/

theorem totalBytes_cons (e : Entry) (es : List Entry) :
    totalBytes (e :: es) = e.sizeBytes + totalBytes es := List.sum_cons

theorem totalBytes_perm {es es' : List Entry} (h : es.Perm es') :
    totalBytes es = totalBytes es' := by
  induction h with
  | nil => rfl
  | cons e h ih => rw [totalBytes_cons, totalBytes_cons, ih]
  | swap e e' es =>
    simp only [totalBytes_cons]
    rw [← UInt64.add_assoc, ← UInt64.add_assoc, UInt64.add_comm e.sizeBytes]
  | trans h h' ih ih' => exact ih.trans ih'

/-- The running total is the total of what is left, with all sums in 64 bits. -/
theorem spent_eq {skip : List String} {remove : String → Removal} {es : List Entry}
    {total base : UInt64} (h : total = totalBytes es + base) :
    (drain maxBytes skip remove).spent es total =
      totalBytes ((drain maxBytes skip remove).kept es total) + base := by
  induction es generalizing total base with
  | nil => exact h
  | cons e es ih =>
    rw [Drain.spent_cons, Drain.kept_cons]
    by_cases hle : total ≤ (drain maxBytes skip remove).bound
    · rw [if_pos hle, if_pos hle, h]
    rw [if_neg hle, if_neg hle]
    rw [totalBytes_cons] at h
    by_cases hs : (drain maxBytes skip remove).stays e = true
    · have hcharge : (drain maxBytes skip remove).charge total e = total := if_pos hs
      have hrest : total = totalBytes es + (e.sizeBytes + base) := by
        rw [h, UInt64.add_comm e.sizeBytes, UInt64.add_assoc]
      rw [hcharge, if_pos hs, totalBytes_cons, ih hrest, ← UInt64.add_assoc,
        UInt64.add_comm _ e.sizeBytes]
    · have hcharge : (drain maxBytes skip remove).charge total e = total - e.sizeBytes := if_neg hs
      have hrest : total - e.sizeBytes = totalBytes es + base := by
        rw [h, UInt64.add_assoc, UInt64.add_comm, UInt64.add_sub_cancel]
      rw [hcharge, if_neg hs, ih hrest]

/-- The entries that a pass leaves, in its order. -/
def keptBy (maxBytes : UInt64) (env : EvictEnv) (skipKeys : List PlaybackKey) (d : Disk) :
    List Entry :=
  (walk maxBytes env skipKeys).kept (env.sort.sort (listEntries d)) (totalBytes (listEntries d))

theorem mem_keptBy (hmax : maxBytes ≠ 0) {e : Entry} : e ∈ keptBy maxBytes env skipKeys d ↔
    e ∈ listEntries d ∧ e.hex ∉ (evictToCapacity maxBytes env skipKeys d).2 := by
  have hnames : ((env.sort.sort (listEntries d)).map (·.hex)).Nodup :=
    ((env.sort.perm _).map _).nodup_iff.mpr (nodup_listEntries d)
  have hsnd : (evictToCapacity maxBytes env skipKeys d).2 =
      (((walk maxBytes env skipKeys).attempted (env.sort.sort (listEntries d))
        (totalBytes (listEntries d))).filter fun e => (env.remove e.hex).succeeds).map (·.hex) := by
    rw [evictToCapacity_eq, if_neg hmax, evictLoop_snd]
  rw [keptBy, Drain.mem_kept _ hnames.of_map, (env.sort.perm _).mem_iff, hsnd]
  refine and_congr_right fun he => not_congr ⟨fun ⟨ha, hr⟩ => ?_, fun hmem => ?_⟩
  · exact List.mem_map.mpr ⟨e, List.mem_filter.mpr ⟨ha, hr⟩, rfl⟩
  · obtain ⟨e', he', hhex⟩ := List.mem_map.mp hmem
    obtain ⟨ha, hr⟩ := List.mem_filter.mp he'
    obtain ⟨older, newer, hsort, -⟩ := (walk maxBytes env skipKeys).mem_attempted.mp ha
    have hmem' : e' ∈ env.sort.sort (listEntries d) := by
      rw [hsort]
      exact List.mem_append_right _ List.mem_cons_self
    obtain rfl := List.inj_on_of_nodup_map hnames hmem' ((env.sort.perm _).mem_iff.mpr he) hhex
    exact ⟨ha, hr⟩

/-- The directories after a pass whose removals succeed. -/
theorem lookup_pass (hmax : maxBytes ≠ 0) (hall : ∀ name, (env.remove name).succeeds = true)
    {name : String} {p : PackageDir} :
    (evictToCapacity maxBytes env skipKeys d).1.dirs.lookup name = some p ↔
      d.dirs.lookup name = some p ∧ (matchesHex16 name = true →
        ⟨name, sizeBytes p, p.lastModified⟩ ∈ keptBy maxBytes env skipKeys d) := by
  rw [lookup_evictToCapacity_of_succeeds fun name _ => hall name, Table.lookup_retain,
    Option.filter_eq_some_iff, decide_eq_true_iff]
  refine and_congr_right fun hp => ?_
  constructor
  · intro hstays hm
    exact (mem_keptBy hmax).mpr ⟨mem_listEntries.mpr ⟨hm, p, hp, rfl⟩, hstays⟩
  · intro hkept hremoved
    obtain ⟨ha, -⟩ := (mem_evictToCapacity_snd name).mp hremoved
    exact ((mem_keptBy hmax).mp (hkept (matchesHex16_of_attempts ha))).2 hremoved

theorem listEntries_pass (hmax : maxBytes ≠ 0) (hall : ∀ name, (env.remove name).succeeds = true) :
    (listEntries (evictToCapacity maxBytes env skipKeys d).1).Perm
      (keptBy maxBytes env skipKeys d) := by
  have hsub : (keptBy maxBytes env skipKeys d).Sublist (env.sort.sort (listEntries d)) :=
    Drain.kept_sublist _ _ _
  have hnodup : (keptBy maxBytes env skipKeys d).Nodup :=
    ((env.sort.perm _).nodup_iff.mpr (nodup_listEntries d).of_map).sublist hsub
  refine (List.perm_ext_iff_of_nodup (nodup_listEntries _).of_map hnodup).mpr fun e => ?_
  rw [mem_listEntries]
  constructor
  · intro ⟨hm, p, hp, he⟩
    rw [he]
    exact ((lookup_pass hmax hall).mp hp).2 hm
  · intro hkept
    obtain ⟨hm, p, hp, he⟩ := mem_listEntries.mp ((mem_keptBy hmax).mp hkept).1
    exact ⟨hm, p, (lookup_pass hmax hall).mpr ⟨hp, fun _ => he ▸ hkept⟩, he⟩

theorem SameDisk.listEntries (h : SameDisk d d') : (listEntries d).Perm (listEntries d') := by
  have hentries : d.dirs.entries.Perm d'.dirs.entries := by
    refine List.lookup_ext (AList.nodupKeys _) (AList.nodupKeys _) fun name p => ?_
    rw [Option.mem_def, Option.mem_def]
    exact iff_of_eq (congrArg (· = some p) (h.dirs name))
  exact (hentries.filter _).map _

/-! ## Two passes -/

/-- The smaller of two capacities. -/
def tighter (c c' : UInt64) : UInt64 := if c ≤ c' then c else c'

theorem walk_eq {maxBytes' : UInt64} {env' : EvictEnv}
    (hall : ∀ name, (env.remove name).succeeds = true)
    (hall' : ∀ name, (env'.remove name).succeeds = true) :
    walk maxBytes' env' skipKeys = { walk maxBytes env skipKeys with bound := maxBytes' } := by
  simp only [walk, drain, hall, hall']

/-- What a second pass keeps is what one pass with the tighter capacity keeps. -/
theorem keptBy_pass {c c' : UInt64} {env' env'' : EvictEnv} (hc : c ≠ 0) (hties : NoTies d)
    (hsame : SameDisk d d') (hall : ∀ name, (env.remove name).succeeds = true)
    (hall' : ∀ name, (env'.remove name).succeeds = true)
    (hall'' : ∀ name, (env''.remove name).succeeds = true) :
    keptBy c' env' skipKeys (evictToCapacity c env skipKeys d).1 =
      keptBy (tighter c c') env'' skipKeys d' := by
  have hsorted : (env.sort.sort (listEntries d)).Pairwise fun a b =>
    a.lastModified ≤ b.lastModified := env.sort.sorted _
  have hkept : (keptBy c env skipKeys d).Sublist (env.sort.sort (listEntries d)) :=
    Drain.kept_sublist _ _ _
  have hperm : (listEntries (evictToCapacity c env skipKeys d).1).Perm
      (keptBy c env skipKeys d) := listEntries_pass hc hall
  have hsub : ∀ e ∈ listEntries (evictToCapacity c env skipKeys d).1, e ∈ listEntries d := by
    intro e he
    exact (env.sort.perm _).mem_iff.mp (hkept.subset (hperm.mem_iff.mp he))
  -- both sorts come out in the order of the first
  have hsort' : env'.sort.sort (listEntries (evictToCapacity c env skipKeys d).1) =
      keptBy c env skipKeys d := by
    refine env'.sort.sort_eq hperm (hsorted.sublist hkept) fun a ha b hb htime => ?_
    exact hties a (hsub a ha) b (hsub b hb) htime
  have hsort'' : env''.sort.sort (listEntries d') = env.sort.sort (listEntries d) := by
    refine env''.sort.sort_eq (hsame.listEntries.symm.trans (env.sort.perm _).symm) hsorted ?_
    intro a ha b hb htime
    exact hties a (hsame.listEntries.mem_iff.mpr ha) b (hsame.listEntries.mem_iff.mpr hb) htime
  have htotal : totalBytes (listEntries (evictToCapacity c env skipKeys d).1) =
      (walk c env skipKeys).spent (env.sort.sort (listEntries d)) (totalBytes (listEntries d)) := by
    have hstart : totalBytes (listEntries d) =
        totalBytes (env.sort.sort (listEntries d)) + 0 := by
      rw [UInt64.add_zero, totalBytes_perm (env.sort.perm _)]
    rw [totalBytes_perm hperm, spent_eq hstart, UInt64.add_zero]
    rfl
  have htotal' : totalBytes (listEntries d') = totalBytes (listEntries d) :=
    (totalBytes_perm hsame.listEntries).symm
  rw [keptBy, hsort', htotal, keptBy, keptBy, hsort'', htotal', walk_eq hall hall', walk_eq hall hall'']
  by_cases hle : c ≤ c'
  · have hmin : tighter c c' = c := if_pos hle
    rw [hmin]
    exact Drain.kept_looser _ _ _ fun w hw => UInt64.le_trans hw hle
  · have hmin : tighter c c' = c' := if_neg hle
    have hle' : c' ≤ c := (UInt64.le_total c c').resolve_left hle
    rw [hmin]
    exact Drain.kept_tighter _ _ _ fun w hw => UInt64.le_trans hw hle'

/-- **Passes compose.** A pass with one capacity and a pass with another leave what one pass
with the smaller of the two leaves, in whatever order the directory is listed and by
whatever sorting routine. -/
theorem evictToCapacity_twice {c c' : UInt64} {env' env'' : EvictEnv} (hc : c ≠ 0) (hc' : c' ≠ 0)
    (hties : NoTies d) (hsame : SameDisk d d')
    (hall : ∀ name, (env.remove name).succeeds = true)
    (hall' : ∀ name, (env'.remove name).succeeds = true)
    (hall'' : ∀ name, (env''.remove name).succeeds = true) :
    SameDisk (evictToCapacity c' env' skipKeys (evictToCapacity c env skipKeys d).1).1
        (evictToCapacity (tighter c c') env'' skipKeys d').1 ∧
      ∀ name, name ∈ (evictToCapacity (tighter c c') env'' skipKeys d').2 ↔
        name ∈ (evictToCapacity c env skipKeys d).2 ∨
          name ∈ (evictToCapacity c' env' skipKeys (evictToCapacity c env skipKeys d).1).2 := by
  have hmin : tighter c c' ≠ 0 := by
    unfold tighter
    split
    · exact hc
    · exact hc'
  have hkept : keptBy c' env' skipKeys (evictToCapacity c env skipKeys d).1 =
      keptBy (tighter c c') env'' skipKeys d' := keptBy_pass hc hties hsame hall hall' hall''
  have hsub : ∀ e ∈ keptBy (tighter c c') env'' skipKeys d', e ∈ keptBy c env skipKeys d := by
    intro e he
    rw [← hkept] at he
    have hmem := ((mem_keptBy hc').mp he).1
    exact (listEntries_pass hc hall).mem_iff.mp hmem
  have hdirs : ∀ name, (evictToCapacity c' env' skipKeys
      (evictToCapacity c env skipKeys d).1).1.dirs.lookup name =
        (evictToCapacity (tighter c c') env'' skipKeys d').1.dirs.lookup name := by
    intro name
    apply Option.ext
    intro p
    rw [lookup_pass hc' hall', lookup_pass hc hall, lookup_pass hmin hall'', hkept, hsame.dirs]
    constructor
    · exact fun ⟨⟨hp, _⟩, hlast⟩ => ⟨hp, hlast⟩
    · exact fun ⟨hp, hlast⟩ => ⟨⟨hp, fun hm => hsub _ (hlast hm)⟩, hlast⟩
  refine ⟨⟨?_, ?_, hdirs⟩, fun name => ?_⟩
  · rw [evictToCapacity_raw.1, evictToCapacity_raw.1, evictToCapacity_raw.1, hsame.raw]
  · rw [evictToCapacity_raw.2, evictToCapacity_raw.2, evictToCapacity_raw.2, hsame.exports]
  · have hmem : name ∈ d.dirs ↔ name ∈ d'.dirs := by
      rw [Table.mem_iff_lookup, Table.mem_iff_lookup, hsame.dirs]
    have hmem' : name ∈ (evictToCapacity c' env' skipKeys
        (evictToCapacity c env skipKeys d).1).1.dirs ↔
          name ∈ (evictToCapacity (tighter c c') env'' skipKeys d').1.dirs := by
      rw [Table.mem_iff_lookup, Table.mem_iff_lookup, hdirs]
    have hthrough : name ∈ (evictToCapacity c' env' skipKeys
        (evictToCapacity c env skipKeys d).1).1.dirs →
          name ∈ (evictToCapacity c env skipKeys d).1.dirs := mem_of_mem_evictToCapacity
    have hfirst : name ∈ (evictToCapacity c env skipKeys d).1.dirs → name ∈ d.dirs :=
      mem_of_mem_evictToCapacity
    rw [mem_snd_iff_gone, mem_snd_iff_gone, mem_snd_iff_gone, ← hmem, ← hmem']
    tauto

namespace Sample

/-- Three packages, and the same three in another order. -/
def store : Disk :=
  { dirs := (((∅ : Table String PackageDir).insert "00000000000000aa" (directory 2 1)).insert
      "00000000000000bb" (directory 3 3)).insert "00000000000000cc" (directory 4 2) }

def storeListedAgain : Disk :=
  { dirs := (((∅ : Table String PackageDir).insert "00000000000000cc" (directory 4 2)).insert
      "00000000000000aa" (directory 2 1)).insert "00000000000000bb" (directory 3 3) }

def removals : EvictEnv where
  sort := SortBy.insertion _
  remove _ := .done

theorem sameDisk_store : SameDisk store storeListedAgain where
  raw := rfl
  exports := rfl
  dirs name := by
    simp only [store, storeListedAgain, Table.lookup_insert_eq]
    split_ifs <;> simp_all

end Sample

theorem evictToCapacity_twice_store :
    (evictToCapacity 7 Sample.removals [⟨"00000000000000cc"⟩] Sample.store).2 =
        ["00000000000000aa"] ∧
      SameDisk (evictToCapacity 4 Sample.removals [⟨"00000000000000cc"⟩]
          (evictToCapacity 7 Sample.removals [⟨"00000000000000cc"⟩] Sample.store).1).1
        (evictToCapacity (tighter 7 4) Sample.removals [⟨"00000000000000cc"⟩]
          Sample.storeListedAgain).1 :=
  ⟨by decide, (evictToCapacity_twice (by decide) (by decide) (by decide) Sample.sameDisk_store
    (fun _ => rfl) (fun _ => rfl) fun _ => rfl).1⟩

end VisionPlayback.StreamCache
