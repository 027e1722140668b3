import Mathlib.Algebra.Order.BigOperators.Group.List
import Mathlib.Algebra.Order.Group.Nat
import VisionPlayback.StreamCache

/-!
# What an eviction pass amounts to

The pass over the listed packages in plain numbers: the bound it reaches, the
order it keeps and how little it removes. Sizes are those the pass counts before
it removes anything; what a failed removal has freed is not seen.
-/

namespace VisionPlayback.StreamCache

open Lib

/-- The bytes of the files of a directory. -/
def dirBytes (p : PackageDir) : ℕ := (p.files.entries.map fun f => f.2.content.length).sum

/-- The bytes of the directories whose names pass a test. -/
def bytesOf (d : Disk) (test : String → Bool) : ℕ :=
  ((d.dirs.entries.filter fun e => test e.1).map fun e => dirBytes e.2).sum

/-! ## Counting in 64 bits -/

theorem toNat_sum (l : List UInt64) (h : (l.map UInt64.toNat).sum < 2 ^ 64) :
    l.sum.toNat = (l.map UInt64.toNat).sum := by
  induction l with
  | nil => rfl
  | cons a l ih =>
    simp only [List.map_cons, List.sum_cons] at h ⊢
    rw [UInt64.toNat_add, ih (by omega)]
    exact Nat.mod_eq_of_lt h

theorem toNat_sizeBytes {p : PackageDir} (h : dirBytes p < 2 ^ 64) :
    (sizeBytes p).toNat = dirBytes p := by
  have hfile : (p.files.entries.map fun f => UInt64.ofNat f.2.content.length).map UInt64.toNat =
      p.files.entries.map fun f => f.2.content.length := by
    rw [List.map_map]
    apply List.map_congr_left
    intro f hf
    have hle : f.2.content.length ≤ dirBytes p :=
      List.single_le_sum (fun _ _ => Nat.zero_le _) _ (List.mem_map_of_mem hf)
    exact UInt64.toNat_ofNat_of_lt' (hle.trans_lt h)
  unfold sizeBytes
  rw [toNat_sum _ (by rw [hfile]; exact h), hfile]
  rfl

theorem dirBytes_le_bytesOf {d : Disk} {test : String → Bool} {name : String} {p : PackageDir}
    (h : d.dirs.lookup name = some p) (ht : test name = true) : dirBytes p ≤ bytesOf d test := by
  have hmem : (⟨name, p⟩ : Sigma fun _ : String => PackageDir) ∈
      d.dirs.entries.filter fun e => test e.1 :=
    List.mem_filter.mpr ⟨AList.mem_lookup_iff.mp h, ht⟩
  exact List.single_le_sum (fun _ _ => Nat.zero_le _) _
    (List.mem_map_of_mem (f := fun e : Sigma fun _ : String => PackageDir => dirBytes e.2) hmem)

theorem mem_listEntries {d : Disk} {e : Entry} :
    e ∈ listEntries d ↔ matchesHex16 e.hex = true ∧ ∃ p, d.dirs.lookup e.hex = some p ∧
      e = ⟨e.hex, sizeBytes p, p.lastModified⟩ := by
  simp only [listEntries, List.mem_map, List.mem_filter]
  constructor
  · rintro ⟨⟨name, p⟩, ⟨hmem, hm⟩, rfl⟩
    exact ⟨hm, p, AList.mem_lookup_iff.mpr hmem, rfl⟩
  · rintro ⟨hm, p, hp, he⟩
    exact ⟨⟨e.hex, p⟩, ⟨AList.mem_lookup_iff.mp hp, hm⟩, he.symm⟩

/-- No two entries have one name. -/
theorem nodup_listEntries (d : Disk) : ((listEntries d).map (·.hex)).Nodup := by
  rw [listEntries, List.map_map]
  exact d.dirs.keys_nodup.sublist (List.filter_sublist.map Sigma.fst)

/-- The entries add up to the bytes of the listed directories. -/
theorem sum_listEntries {d : Disk} (h : bytesOf d matchesHex16 < 2 ^ 64) (test : String → Bool) :
    (((listEntries d).filter fun e => test e.hex).map fun e => e.sizeBytes.toNat).sum =
      bytesOf d fun name => matchesHex16 name && test name := by
  rw [listEntries, List.filter_map, List.map_map, bytesOf, List.filter_filter]
  congr 1
  have hfilter : (d.dirs.entries.filter fun e => ((fun e : Entry => test e.hex) ∘
      fun e : Sigma fun _ : String => PackageDir =>
        (⟨e.1, sizeBytes e.2, e.2.lastModified⟩ : Entry)) e && matchesHex16 e.1) =
      d.dirs.entries.filter fun e => matchesHex16 e.1 && test e.1 :=
    List.filter_congr fun e _ => Bool.and_comm _ _
  rw [hfilter]
  apply List.map_congr_left
  intro e he
  obtain ⟨hmem, ht⟩ := List.mem_filter.mp he
  have hm : matchesHex16 e.1 = true := (Bool.and_eq_true_iff.mp ht).1
  have hle := dirBytes_le_bytesOf (AList.mem_lookup_iff.mpr hmem) hm
  exact toNat_sizeBytes (by omega)

theorem toNat_totalBytes {d : Disk} (h : bytesOf d matchesHex16 < 2 ^ 64) :
    (totalBytes (listEntries d)).toNat = bytesOf d matchesHex16 := by
  have hsum := sum_listEntries h fun _ => true
  simp only [List.filter_true, Bool.and_true] at hsum
  have hmap : ((listEntries d).map (·.sizeBytes)).map UInt64.toNat =
      (listEntries d).map fun e => e.sizeBytes.toNat := List.map_map
  rw [totalBytes, toNat_sum _ (by rw [hmap, hsum]; exact h), hmap, hsum]

/-! ## The walk in plain numbers -/

section Pass

variable {maxBytes : UInt64} {env : EvictEnv} {skipKeys : List PlaybackKey} {d : Disk}

/-- The walk of one pass. -/
abbrev walk (maxBytes : UInt64) (env : EvictEnv) (skipKeys : List PlaybackKey) :
    Drain Entry UInt64 :=
  drain maxBytes (skipKeys.map (·.hex)) env.remove

/-- The names of the entries that are gone when they have had their turn. -/
def gone (maxBytes : UInt64) (env : EvictEnv) (skipKeys : List PlaybackKey) (older : List Entry) :
    List String :=
  (older.filter fun e => !(walk maxBytes env skipKeys).stays e).map (·.hex)

theorem nodup_sorted {older newer : List Entry}
    (h : env.sort.sort (listEntries d) = older ++ newer) :
    ((older ++ newer).map (·.hex)).Nodup := by
  rw [← h]
  exact ((env.sort.perm _).map _).nodup_iff.mpr (nodup_listEntries d)

theorem mem_sorted {e : Entry} :
    e ∈ env.sort.sort (listEntries d) ↔ matchesHex16 e.hex = true ∧
      ∃ p, d.dirs.lookup e.hex = some p ∧ e = ⟨e.hex, sizeBytes p, p.lastModified⟩ := by
  rw [(env.sort.perm _).mem_iff, mem_listEntries]

variable (env) in
/-- A package on disk has its entry. -/
theorem mem_sorted_of_lookup {name : String} {p : PackageDir} (hm : matchesHex16 name = true)
    (hp : d.dirs.lookup name = some p) :
    ⟨name, sizeBytes p, p.lastModified⟩ ∈ env.sort.sort (listEntries d) :=
  mem_sorted.mpr ⟨hm, p, hp, rfl⟩

theorem map_removed (es : List Entry) :
    ((es.filter fun e => !(walk maxBytes env skipKeys).protect e).filter
      fun e => (env.remove e.hex).succeeds).map (·.hex) = gone maxBytes env skipKeys es := by
  rw [List.filter_filter, gone]
  congr 1
  apply List.filter_congr
  intro e he
  simp [Drain.stays, drain, Bool.and_comm]

/-- A pass that stops after `older` has removed what is gone by then. -/
theorem evictToCapacity_snd_of_stopsAt (hmax : maxBytes ≠ 0) {older newer : List Entry}
    (hsort : env.sort.sort (listEntries d) = older ++ newer)
    (hstop : (walk maxBytes env skipKeys).StopsAt (totalBytes (listEntries d)) older) :
    (evictToCapacity maxBytes env skipKeys d).2 = gone maxBytes env skipKeys older := by
  rw [evictToCapacity_eq, if_neg hmax, evictLoop_snd, hsort, Drain.attempted_of_stopsAt _ hstop]
  exact map_removed older

variable (env skipKeys d) in
/-- Where a pass comes to its end, and what it has removed by then. -/
theorem evictToCapacity_walk (hmax : maxBytes ≠ 0) :
    ∃ older newer, env.sort.sort (listEntries d) = older ++ newer ∧
      (evictToCapacity maxBytes env skipKeys d).2 = gone maxBytes env skipKeys older ∧
      ((newer = [] ∧ (walk maxBytes env skipKeys).StaysOver (totalBytes (listEntries d)) older) ∨
        (walk maxBytes env skipKeys).StopsAt (totalBytes (listEntries d)) older) := by
  rcases (walk maxBytes env skipKeys).staysOver_or_stopsAt (env.sort.sort (listEntries d))
    (totalBytes (listEntries d)) with hover | ⟨older, newer, hsort, hstop⟩
  · refine ⟨_, [], (List.append_nil _).symm, ?_, Or.inl ⟨rfl, hover⟩⟩
    rw [evictToCapacity_eq, if_neg hmax, evictLoop_snd, Drain.attempted_of_staysOver _ hover]
    exact map_removed _
  · exact ⟨older, newer, hsort, evictToCapacity_snd_of_stopsAt hmax hsort hstop, Or.inr hstop⟩

/-- What has not had its turn is not gone. -/
theorem notMem_gone {older newer : List Entry} (h : ((older ++ newer).map (·.hex)).Nodup)
    {e : Entry} (he : e ∈ newer) : e.hex ∉ gone maxBytes env skipKeys older := by
  intro hmem
  obtain ⟨e', he', hhex⟩ := List.mem_map.mp hmem
  rw [List.map_append, List.nodup_append] at h
  exact h.2.2 e'.hex (List.mem_map_of_mem (List.mem_of_mem_filter he')) e.hex
    (List.mem_map_of_mem he) hhex

/-- What is not gone after `older` is what stays of it, and all the rest. -/
theorem filter_gone {older newer : List Entry} (h : ((older ++ newer).map (·.hex)).Nodup) :
    ((older ++ newer).filter fun e => decide (e.hex ∉ gone maxBytes env skipKeys older)) =
      older.filter (walk maxBytes env skipKeys).stays ++ newer := by
  have hnodup : (older.map (·.hex)).Nodup := by
    rw [List.map_append, List.nodup_append] at h
    exact h.1
  rw [List.filter_append]
  congr 1
  · apply List.filter_congr
    intro e he
    have hiff : e.hex ∈ gone maxBytes env skipKeys older ↔
        (walk maxBytes env skipKeys).stays e = false := by
      simp only [gone, List.mem_map, List.mem_filter, Bool.not_eq_true']
      constructor
      · rintro ⟨e', ⟨he', hstays⟩, hhex⟩
        obtain rfl := List.inj_on_of_nodup_map hnodup he' he hhex
        exact hstays
      · intro hstays
        exact ⟨e, ⟨he, hstays⟩, rfl⟩
    cases hstays : (walk maxBytes env skipKeys).stays e with
    | true => simp [hiff, hstays]
    | false => simp [hiff, hstays]
  · exact List.filter_eq_self.mpr fun e he => decide_eq_true (notMem_gone h he)

variable (maxBytes skipKeys) in
/-- The running total is what the packages that are not gone add up to. -/
theorem toNat_left (hfits : bytesOf d matchesHex16 < 2 ^ 64) {older newer : List Entry}
    (h : env.sort.sort (listEntries d) = older ++ newer) :
    ((walk maxBytes env skipKeys).left (totalBytes (listEntries d)) older).toNat =
        (newer.map fun e => e.sizeBytes.toNat).sum +
          ((older.filter (walk maxBytes env skipKeys).stays).map fun e => e.sizeBytes.toNat).sum ∧
      ((walk maxBytes env skipKeys).left (totalBytes (listEntries d)) older).toNat =
        bytesOf d fun name =>
          matchesHex16 name && decide (name ∉ gone maxBytes env skipKeys older) := by
  have hperm : (older ++ newer).Perm (listEntries d) := h ▸ env.sort.perm _
  have htotal : (totalBytes (listEntries d)).toNat =
      (newer.map fun e => e.sizeBytes.toNat).sum +
        (older.map fun e => e.sizeBytes.toNat).sum := by
    have hsum := sum_listEntries hfits fun _ => true
    simp only [List.filter_true, Bool.and_true] at hsum
    rw [toNat_totalBytes hfits, ← hsum, ← (hperm.map _).sum_eq, List.map_append, List.sum_append]
    omega
  have hleft := Drain.value_left UInt64.toNat (D := walk maxBytes env skipKeys)
    (fun a b hle => UInt64.toNat_sub_of_le a b (UInt64.le_iff_toNat_le.mpr hle)) htotal
  refine ⟨hleft, ?_⟩
  rw [hleft, ← sum_listEntries hfits, ← ((hperm.filter _).map _).sum_eq,
    filter_gone (nodup_sorted h), List.map_append, List.sum_append, Nat.add_comm]
  rfl

/-! ## Exactness -/

/-- What a pass does, of the packages on disk before it. -/
structure Exact (maxBytes : UInt64) (env : EvictEnv) (skipKeys : List PlaybackKey) (d : Disk) :
    Prop where
  /-- The list a pass returns names the directories that are gone. -/
  removed : ∀ name, name ∈ (evictToCapacity maxBytes env skipKeys d).2 ↔
    name ∈ d.dirs ∧ name ∉ (evictToCapacity maxBytes env skipKeys d).1.dirs
  only : ∀ name ∈ (evictToCapacity maxBytes env skipKeys d).2,
    isHex16 name = true ∧ ⟨name⟩ ∉ skipKeys
  /-- What the pass goes for is left as the removal leaves it, and nothing else is touched. -/
  attempted : ∀ name, Attempts maxBytes env skipKeys d name →
    isHex16 name = true ∧ ⟨name⟩ ∉ skipKeys ∧
      (evictToCapacity maxBytes env skipKeys d).1.dirs.lookup name =
        (d.dirs.lookup name).bind (env.remove name).leftover
  untouched : ∀ name, ¬ Attempts maxBytes env skipKeys d name →
    (evictToCapacity maxBytes env skipKeys d).1.dirs.lookup name = d.dirs.lookup name
  raw : (evictToCapacity maxBytes env skipKeys d).1.raw = d.raw
  exports : (evictToCapacity maxBytes env skipKeys d).1.exports = d.exports
  bounded : (bytesOf d fun name => isHex16 name &&
      decide (name ∉ (evictToCapacity maxBytes env skipKeys d).2)) ≤ maxBytes.toNat ∨
    ∀ name ∈ (evictToCapacity maxBytes env skipKeys d).1.dirs, isHex16 name = true →
      ⟨name⟩ ∈ skipKeys ∨
        (Attempts maxBytes env skipKeys d name ∧ (env.remove name).succeeds = false)
  oldest : ∀ name ∈ (evictToCapacity maxBytes env skipKeys d).2, ∀ name' p p',
    d.dirs.lookup name = some p → d.dirs.lookup name' = some p' → isHex16 name' = true →
    ⟨name'⟩ ∉ skipKeys → ¬ Attempts maxBytes env skipKeys d name' →
    p.lastModified ≤ p'.lastModified
  /-- Up to the last removal the packages still exceed the capacity. -/
  needed : ∀ before last, (evictToCapacity maxBytes env skipKeys d).2 = before ++ [last] →
    maxBytes.toNat < bytesOf d fun name => isHex16 name && decide (name ∉ before)
  idle : bytesOf d isHex16 ≤ maxBytes.toNat →
    evictToCapacity maxBytes env skipKeys d = (d, [])
  /-- The loop comes to an entry, with what it has removed before it, at the `left` of the walk
  as its total, and the size it may take off is no more than that. -/
  subtracts : ∀ older e newer, env.sort.sort (listEntries d) = older ++ e :: newer →
    (walk maxBytes env skipKeys).StaysOver (totalBytes (listEntries d)) older →
    let total := (walk maxBytes env skipKeys).left (totalBytes (listEntries d)) older
    let before := evictLoop maxBytes (skipKeys.map (·.hex)) env.remove older
      (totalBytes (listEntries d)) d
    let out := evictLoop maxBytes (skipKeys.map (·.hex)) env.remove (e :: newer) total before.1
    e.sizeBytes ≤ total ∧
      evictToCapacity maxBytes env skipKeys d = (out.1, before.2 ++ out.2)

theorem evictLoop_cons (maxBytes : UInt64) (skip : List String) (remove : String → Removal)
    (e : Entry) (es : List Entry) (total : UInt64) (d : Disk) :
    evictLoop maxBytes skip remove (e :: es) total d =
      if total ≤ maxBytes then (d, [])
      else if e.hex ∈ skip then evictLoop maxBytes skip remove es total d
      else if (remove e.hex).succeeds then
        let out := evictLoop maxBytes skip remove es (total - e.sizeBytes)
          (removeRecursively (remove e.hex) e.hex d)
        (out.1, e.hex :: out.2)
      else evictLoop maxBytes skip remove es total
        (removeRecursively (remove e.hex) e.hex d) := rfl

/-- The loop comes to an entry with the running total of the walk. -/
theorem evictLoop_append {skip : List String} {remove : String → Removal} {older : List Entry}
    {total : UInt64} (h : (drain maxBytes skip remove).StaysOver total older) (es : List Entry)
    (d : Disk) : evictLoop maxBytes skip remove (older ++ es) total d =
      let before := evictLoop maxBytes skip remove older total d
      let out := evictLoop maxBytes skip remove es ((drain maxBytes skip remove).left total older)
        before.1
      (out.1, before.2 ++ out.2) := by
  induction older generalizing total d with
  | nil => rfl
  | cons e older ih =>
    obtain ⟨hover, hs⟩ := (Drain.staysOver_cons _).mp h
    have hover : ¬ total ≤ maxBytes := hover
    rw [List.cons_append, evictLoop_cons, evictLoop_cons, if_neg hover, if_neg hover,
      Drain.left_cons]
    by_cases hskip : e.hex ∈ skip
    · have hcharge : (drain maxBytes skip remove).charge total e = total := by
        simp [Drain.charge, drain, hskip]
      rw [hcharge] at hs ⊢
      rw [if_pos hskip, if_pos hskip]
      exact ih hs d
    · rw [if_neg hskip, if_neg hskip]
      cases hr : (remove e.hex).succeeds with
      | true =>
        have hcharge : (drain maxBytes skip remove).charge total e = total - e.sizeBytes := by
          simp [Drain.charge, drain, hskip, hr]
        rw [hcharge] at hs ⊢
        rw [if_pos rfl, if_pos rfl, ih hs (removeRecursively (remove e.hex) e.hex d)]
        rfl
      | false =>
        have hcharge : (drain maxBytes skip remove).charge total e = total := by
          simp [Drain.charge, drain, hr]
        rw [hcharge] at hs ⊢
        rw [if_neg Bool.false_ne_true, if_neg Bool.false_ne_true]
        exact ih hs _

theorem lookup_of_attempts {name : String} (h : Attempts maxBytes env skipKeys d name) :
    matchesHex16 name = true ∧ ∃ p, d.dirs.lookup name = some p := by
  obtain ⟨-, -, older, e, newer, hsort, rfl, -⟩ := h
  have hmem : e ∈ env.sort.sort (listEntries d) := by
    rw [hsort]
    exact List.mem_append_right _ List.mem_cons_self
  obtain ⟨hm, p, hp, -⟩ := mem_sorted.mp hmem
  exact ⟨hm, p, hp⟩

/-- A directory is gone exactly when it was attempted with success. -/
theorem mem_snd_iff_gone (name : String) :
    name ∈ (evictToCapacity maxBytes env skipKeys d).2 ↔
      name ∈ d.dirs ∧ name ∉ (evictToCapacity maxBytes env skipKeys d).1.dirs := by
  rw [mem_evictToCapacity_snd, ← AList.lookup_eq_none, evictToCapacity_lookup]
  constructor
  · intro ⟨ha, hr⟩
    obtain ⟨-, p, hp⟩ := lookup_of_attempts ha
    refine ⟨Table.mem_iff_lookup.mpr ⟨p, hp⟩, ?_⟩
    rw [if_pos ha, hp, Option.bind_some]
    cases hrm : env.remove name with
    | done => rfl
    | failed keep t => rw [hrm] at hr; cases hr
  · intro ⟨hmem, hnone⟩
    obtain ⟨p, hp⟩ := Table.mem_iff_lookup.mp hmem
    by_cases ha : Attempts maxBytes env skipKeys d name
    · rw [if_pos ha, hp, Option.bind_some] at hnone
      refine ⟨ha, ?_⟩
      cases hrm : env.remove name with
      | done => rfl
      | failed keep t => rw [hrm] at hnone; cases hnone
    · rw [if_neg ha, hp] at hnone
      cases hnone

theorem bytesOf_congr {test test' : String → Bool}
    (h : ∀ name ∈ d.dirs, test name = test' name) : bytesOf d test = bytesOf d test' := by
  unfold bytesOf
  rw [List.filter_congr fun e he => h e.1 (AList.mem_keys.mpr (List.mem_keys_of_mem he))]

/-- A package that the walk comes to is attempted, unless it is skipped. -/
theorem attempts_of_turn {name : String} {older newer : List Entry} {e : Entry}
    (hmax : maxBytes ≠ 0) (hsort : env.sort.sort (listEntries d) = older ++ newer)
    (hend : (walk maxBytes env skipKeys).StaysOver (totalBytes (listEntries d)) older ∨
      (walk maxBytes env skipKeys).StopsAt (totalBytes (listEntries d)) older)
    (he : e ∈ older) (hname : e.hex = name) (hskip : ⟨name⟩ ∉ skipKeys) :
    Attempts maxBytes env skipKeys d name := by
  obtain ⟨before, after, rfl⟩ := List.append_of_mem he
  refine ⟨hmax, hskip, before, e, after ++ newer, ?_, hname, ?_⟩
  · rw [hsort, List.append_assoc, List.cons_append]
  · rcases hend with hover | hstop
    · exact fun p hp => hover p (hp.trans (List.prefix_append _ _))
    · exact hstop.staysOver

/-- What is still there after its turn is skipped, or its removal has failed. -/
theorem skipped_or_failed {name : String} {older newer : List Entry} {e : Entry}
    (hmax : maxBytes ≠ 0) (hsort : env.sort.sort (listEntries d) = older ++ newer)
    (hend : (walk maxBytes env skipKeys).StaysOver (totalBytes (listEntries d)) older ∨
      (walk maxBytes env skipKeys).StopsAt (totalBytes (listEntries d)) older)
    (he : e ∈ older) (hname : e.hex = name)
    (hleft : name ∈ (evictToCapacity maxBytes env skipKeys d).1.dirs) :
    ⟨name⟩ ∈ skipKeys ∨
      (Attempts maxBytes env skipKeys d name ∧ (env.remove name).succeeds = false) := by
  by_cases hskip : ⟨name⟩ ∈ skipKeys
  · exact Or.inl hskip
  have ha := attempts_of_turn hmax hsort hend he hname hskip
  refine Or.inr ⟨ha, ?_⟩
  cases hr : (env.remove name).succeeds with
  | false => rfl
  | true => exact absurd hleft ((mem_snd_iff_gone name).mp
      ((mem_evictToCapacity_snd name).mpr ⟨ha, hr⟩)).2

theorem lastModified_le_of_removed {name name' : String} {p p' : PackageDir}
    (hname : name ∈ (evictToCapacity maxBytes env skipKeys d).2)
    (hp : d.dirs.lookup name = some p) (hp' : d.dirs.lookup name' = some p')
    (hhex : isHex16 name' = true) (hskip : ⟨name'⟩ ∉ skipKeys)
    (hnot : ¬ Attempts maxBytes env skipKeys d name') : p.lastModified ≤ p'.lastModified := by
  obtain ⟨ha, -⟩ := (mem_evictToCapacity_snd name).mp hname
  obtain ⟨hmax, -, older, e, newer, hsort, rfl, hover⟩ := ha
  have hmem' : (⟨name', sizeBytes p', p'.lastModified⟩ : Entry) ∈ older ++ e :: newer := by
    rw [← hsort]
    exact mem_sorted_of_lookup env (by simp [matchesHex16, hhex]) hp'
  have hmem : e ∈ env.sort.sort (listEntries d) := by
    rw [hsort]
    exact List.mem_append_right _ List.mem_cons_self
  have hlast : e.lastModified = p.lastModified := by
    obtain ⟨-, q, hq, he⟩ := mem_sorted.mp hmem
    obtain rfl := Option.some.inj (hp.symm.trans hq)
    rw [he]
  have hsorted := hsort ▸ env.sort.sorted (listEntries d)
  -- an unskipped package that comes no later has had its turn
  rcases List.mem_append.mp hmem' with hold | hnew
  · exact absurd (attempts_of_turn hmax hsort (Or.inl hover) hold rfl hskip) hnot
  · rcases List.mem_cons.mp hnew with heq | hnew
    · rw [← hlast, ← heq]
    · rw [← hlast]
      exact List.rel_of_pairwise_cons (List.pairwise_append.mp hsorted).2.1 hnew

/-- Before the last removal the total is still over the capacity. -/
theorem lt_bytesOf_of_removed (hfits : bytesOf d matchesHex16 < 2 ^ 64) (hmax : maxBytes ≠ 0)
    {before : List String} {last : String}
    (h : (evictToCapacity maxBytes env skipKeys d).2 = before ++ [last]) :
    maxBytes.toNat < bytesOf d fun name => matchesHex16 name && decide (name ∉ before) := by
  obtain ⟨older, newer, hsort, hgone, hend⟩ :=
    evictToCapacity_walk env skipKeys d hmax
  rw [hgone, gone] at h
  obtain ⟨removed, rest, hfilter, rfl, hrest⟩ := List.map_eq_append_iff.mp h
  obtain ⟨older, later, rfl, rfl, hlater⟩ := List.filter_eq_append_iff.mp hfilter
  obtain ⟨e, es, rfl, -, -⟩ := List.map_eq_cons_iff.mp hrest
  obtain ⟨mid, later, rfl, hmid, -, -⟩ := List.filter_eq_cons_iff.mp hlater
  -- what stands between the removals stays, so the list before is that of the longer prefix
  have hover : (walk maxBytes env skipKeys).StaysOver (totalBytes (listEntries d))
      (older ++ mid) := by
    rcases hend with ⟨-, hover⟩ | hstop
    · refine fun p hp => hover p (hp.trans ?_)
      exact ⟨e :: later, by rw [List.append_assoc]⟩
    · rw [← List.append_assoc] at hstop
      exact hstop.staysOver
  have hsplit : env.sort.sort (listEntries d) = (older ++ mid) ++ (e :: later ++ newer) := by
    rw [hsort]
    simp only [List.append_assoc, List.cons_append]
  have hleft := (toNat_left maxBytes skipKeys hfits hsplit).2
  have hnot := hover (older ++ mid) (List.prefix_refl _)
  have hlt : maxBytes.toNat < ((walk maxBytes env skipKeys).left (totalBytes (listEntries d))
      (older ++ mid)).toNat :=
    Nat.not_le.mp fun hle => hnot (UInt64.le_iff_toNat_le.mpr hle)
  have hbefore : gone maxBytes env skipKeys (older ++ mid) = gone maxBytes env skipKeys older := by
    rw [gone, List.filter_append, List.filter_eq_nil_iff.mpr hmid, List.append_nil]
    rfl
  rwa [hleft, hbefore] at hlt

/-- A pass ends within the capacity, or with nothing left that it may remove. -/
theorem bounded_or_exhausted (hfits : bytesOf d matchesHex16 < 2 ^ 64) (hmax : maxBytes ≠ 0) :
    (bytesOf d fun name => matchesHex16 name &&
        decide (name ∉ (evictToCapacity maxBytes env skipKeys d).2)) ≤ maxBytes.toNat ∨
      ∀ name ∈ (evictToCapacity maxBytes env skipKeys d).1.dirs, matchesHex16 name = true →
        ⟨name⟩ ∈ skipKeys ∨
          (Attempts maxBytes env skipKeys d name ∧ (env.remove name).succeeds = false) := by
  obtain ⟨older, newer, hsort, hgone, ⟨rfl, hover⟩ | hstop⟩ :=
    evictToCapacity_walk env skipKeys d hmax
  · refine Or.inr fun name hname hm => ?_
    obtain ⟨p, hp⟩ := Table.mem_iff_lookup.mp (mem_of_mem_evictToCapacity hname)
    have hmem := mem_sorted_of_lookup env hm hp
    rw [hsort, List.append_nil] at hmem
    exact skipped_or_failed hmax hsort (Or.inl hover) hmem rfl hname
  · refine Or.inl ?_
    rw [hgone, ← (toNat_left maxBytes skipKeys hfits hsort).2]
    exact UInt64.le_iff_toNat_le.mp hstop.within

/-- After a pass whose removals all succeed, the directories are those it has not removed. -/
theorem lookup_evictToCapacity_of_succeeds
    (hall : ∀ name, Attempts maxBytes env skipKeys d name → (env.remove name).succeeds = true)
    (name : String) : (evictToCapacity maxBytes env skipKeys d).1.dirs.lookup name =
      (d.dirs.retain fun name _ =>
        decide (name ∉ (evictToCapacity maxBytes env skipKeys d).2)).lookup name := by
  rw [evictToCapacity_lookup, Table.lookup_retain]
  by_cases ha : Attempts maxBytes env skipKeys d name
  · have hgone : name ∈ (evictToCapacity maxBytes env skipKeys d).2 :=
      (mem_evictToCapacity_snd name).mpr ⟨ha, hall name ha⟩
    have hdone : (d.dirs.lookup name).bind (env.remove name).leftover = none := by
      cases hr : env.remove name with
      | done => cases d.dirs.lookup name <;> rfl
      | failed keep t =>
        have hs := hall name ha
        rw [hr] at hs
        cases hs
    rw [if_pos ha, hdone]
    simp [hgone]
  · have hstays : name ∉ (evictToCapacity maxBytes env skipKeys d).2 :=
      fun hmem => ha ((mem_evictToCapacity_snd name).mp hmem).1
    rw [if_neg ha]
    cases d.dirs.lookup name with
    | none => rfl
    | some p => rw [Option.filter_some, if_pos (decide_eq_true hstays)]

theorem bytesOf_evictToCapacity
    (hall : ∀ name, Attempts maxBytes env skipKeys d name → (env.remove name).succeeds = true)
    (test : String → Bool) : bytesOf (evictToCapacity maxBytes env skipKeys d).1 test =
      bytesOf d fun name =>
        test name && decide (name ∉ (evictToCapacity maxBytes env skipKeys d).2) := by
  have hperm : (evictToCapacity maxBytes env skipKeys d).1.dirs.entries.Perm
      (d.dirs.retain fun name _ =>
        decide (name ∉ (evictToCapacity maxBytes env skipKeys d).2)).entries := by
    refine List.lookup_ext (AList.nodupKeys _) (AList.nodupKeys _) fun name p => ?_
    rw [Option.mem_def, Option.mem_def]
    exact iff_of_eq (congrArg (· = some p) (lookup_evictToCapacity_of_succeeds hall name))
  rw [bytesOf, ((hperm.filter _).map _).sum_eq, bytesOf, Table.entries_retain, List.filter_filter]

/-- With `extra` bytes that no pass counts: they are within the capacity as well, or only
skipped packages are left, exactly when a pass that stops early has left them room. -/
theorem bounded_iff_room (hmax : maxBytes ≠ 0)
    (hall : ∀ name, Attempts maxBytes env skipKeys d name → (env.remove name).succeeds = true)
    (extra : ℕ) :
    (bytesOf (evictToCapacity maxBytes env skipKeys d).1 matchesHex16 + extra ≤ maxBytes.toNat ∨
      ∀ name ∈ (evictToCapacity maxBytes env skipKeys d).1.dirs, matchesHex16 name = true →
        ⟨name⟩ ∈ skipKeys) ↔
    ∀ older newer, env.sort.sort (listEntries d) = older ++ newer →
      (walk maxBytes env skipKeys).StopsAt (totalBytes (listEntries d)) older →
      (∃ e ∈ newer, ⟨e.hex⟩ ∉ skipKeys) →
      (bytesOf d fun name =>
        matchesHex16 name && decide (name ∉ gone maxBytes env skipKeys older)) + extra ≤
          maxBytes.toNat := by
  rw [bytesOf_evictToCapacity hall]
  constructor
  · rintro hbound older newer hsort hstop ⟨e, he, hskip⟩
    have hgone := evictToCapacity_snd_of_stopsAt hmax hsort hstop
    rcases hbound with hle | honly
    · rwa [hgone] at hle
    · -- the package that is not reached is still there
      exfalso
      have hmem : e ∈ env.sort.sort (listEntries d) := by
        rw [hsort]
        exact List.mem_append_right _ he
      obtain ⟨hm, p, hp, -⟩ := mem_sorted.mp hmem
      have hstays : e.hex ∉ (evictToCapacity maxBytes env skipKeys d).2 := by
        rw [hgone]
        exact notMem_gone (nodup_sorted hsort) he
      refine hskip (honly e.hex ?_ hm)
      by_contra hlost
      exact hstays ((mem_snd_iff_gone e.hex).mpr ⟨Table.mem_iff_lookup.mpr ⟨p, hp⟩, hlost⟩)
  · intro hroom
    obtain ⟨older, newer, hsort, hgone, hend⟩ := evictToCapacity_walk env skipKeys d hmax
    by_cases hnext : ∃ e ∈ newer, ⟨e.hex⟩ ∉ skipKeys
    · rcases hend with ⟨rfl, -⟩ | hstop
      · obtain ⟨e, he, -⟩ := hnext
        cases he
      · rw [hgone]
        exact Or.inl (hroom older newer hsort hstop hnext)
    · refine Or.inr fun name hname hm => ?_
      obtain ⟨p, hp⟩ := Table.mem_iff_lookup.mp (mem_of_mem_evictToCapacity hname)
      have hmem := mem_sorted_of_lookup env hm hp
      rw [hsort] at hmem
      rcases List.mem_append.mp hmem with hold | hnew
      · rcases skipped_or_failed hmax hsort (hend.imp_left And.right) hold rfl hname with
          hskip | ⟨ha, hfail⟩
        · exact hskip
        · rw [hall name ha] at hfail
          cases hfail
      · by_contra hskip
        exact hnext ⟨_, hnew, hskip⟩

/-- A pass leaves packages alone that add up to the capacity or less. -/
theorem evictToCapacity_idle (hle : bytesOf d matchesHex16 ≤ maxBytes.toNat) :
    evictToCapacity maxBytes env skipKeys d = (d, []) := by
  have hfits : bytesOf d matchesHex16 < 2 ^ 64 := lt_of_le_of_lt hle maxBytes.toNat_lt
  rw [← toNat_totalBytes hfits, ← UInt64.le_iff_toNat_le] at hle
  unfold evictToCapacity
  by_cases hmax : maxBytes = 0
  · exact if_pos hmax
  · rw [if_neg hmax]
    exact if_pos hle

/-- What a pass removes with a capacity, it removes with every smaller one but 0. -/
theorem removed_mono {smaller : UInt64} (hpos : smaller ≠ 0) (hle : smaller ≤ maxBytes)
    {name : String} (h : name ∈ (evictToCapacity maxBytes env skipKeys d).2) :
    name ∈ (evictToCapacity smaller env skipKeys d).2 := by
  obtain ⟨⟨-, hskip, older, e, newer, hsort, hhex, hover⟩, hr⟩ :=
    (mem_evictToCapacity_snd name).mp h
  have htighter := hover.tighter _ fun w hw => UInt64.le_trans hw hle
  exact (mem_evictToCapacity_snd name).mpr
    ⟨⟨hpos, hskip, older, e, newer, hsort, hhex, htighter⟩, hr⟩

/-- A pass removes no package twice. -/
theorem nodup_removed : (evictToCapacity maxBytes env skipKeys d).2.Nodup := by
  by_cases hmax : maxBytes = 0
  · rw [evictToCapacity_eq, if_pos hmax]
    exact List.nodup_nil
  · obtain ⟨older, newer, hsort, hgone, -⟩ := evictToCapacity_walk env skipKeys d hmax
    have hnodup := nodup_sorted hsort
    rw [List.map_append, List.nodup_append] at hnodup
    rw [hgone, gone]
    exact hnodup.1.sublist (List.filter_sublist.map _)

theorem removed_subperm {smaller : UInt64} (hpos : smaller ≠ 0) (hle : smaller ≤ maxBytes) :
    (evictToCapacity maxBytes env skipKeys d).2.Subperm
      (evictToCapacity smaller env skipKeys d).2 :=
  List.subperm_of_subset nodup_removed fun _ h => removed_mono hpos hle h

/-- **Exactness.** Of packages named by sixteen hex digits, with sizes that add up
within 64 bits. -/
theorem evictToCapacity_exact (hmax : maxBytes ≠ 0)
    (hnames : ∀ name ∈ d.dirs, matchesHex16 name = true → isHex16 name = true)
    (hfits : bytesOf d isHex16 < 2 ^ 64) : Exact maxBytes env skipKeys d := by
  have hsame : ∀ name ∈ d.dirs, isHex16 name = matchesHex16 name := by
    intro name hname
    cases hm : matchesHex16 name with
    | true => exact hnames name hname hm
    | false => exact (Bool.or_eq_false_iff.mp hm).1
  have hcounted : bytesOf d isHex16 = bytesOf d matchesHex16 := bytesOf_congr hsame
  have hbytes : ∀ test : String → Bool,
      (bytesOf d fun name => isHex16 name && test name) =
        bytesOf d fun name => matchesHex16 name && test name :=
    fun test => bytesOf_congr fun name hname => by rw [hsame name hname]
  rw [hcounted] at hfits
  constructor
  · exact mem_snd_iff_gone
  · intro name hname
    obtain ⟨hmem, -⟩ := (mem_snd_iff_gone name).mp hname
    obtain ⟨ha, -⟩ := (mem_evictToCapacity_snd name).mp hname
    exact ⟨hnames name hmem (matchesHex16_of_attempts ha), ha.2.1⟩
  · intro name ha
    obtain ⟨hm, p, hp⟩ := lookup_of_attempts ha
    refine ⟨hnames name (Table.mem_iff_lookup.mpr ⟨p, hp⟩) hm, ha.2.1, ?_⟩
    rw [evictToCapacity_lookup, if_pos ha]
  · intro name hnot
    rw [evictToCapacity_lookup, if_neg hnot]
  · exact evictToCapacity_raw.1
  · exact evictToCapacity_raw.2
  · rw [hbytes]
    refine (bounded_or_exhausted hfits hmax).imp_right fun h name hname hhex => ?_
    exact h name hname (by rw [← hsame name (mem_of_mem_evictToCapacity hname)]; exact hhex)
  · intro name hname name' p p' hp hp' hhex hskip hnot
    exact lastModified_le_of_removed hname hp hp' hhex hskip hnot
  · intro before last h
    rw [hbytes]
    exact lt_bytesOf_of_removed hfits hmax h
  · intro hle
    rw [hcounted] at hle
    exact evictToCapacity_idle hle
  · intro older e newer hsort hover
    constructor
    · rw [UInt64.le_iff_toNat_le, (toNat_left maxBytes skipKeys hfits hsort).1, List.map_cons, List.sum_cons]
      omega
    · rw [evictToCapacity_eq, if_neg hmax, hsort]
      exact evictLoop_append hover (e :: newer) d

end Pass

namespace Sample

def directory (bytes : ℕ) (lastModified : Int) : PackageDir :=
  { files := AList.insert "manifest.mpd" { content := List.replicate bytes 32 } ∅, lastModified }

/-- Two packages of one time and a newer one, nine bytes in all. -/
def threePackages : Disk :=
  { dirs := (((∅ : Table String PackageDir).insert "00000000000000aa" (directory 2 1)).insert
      "00000000000000bb" (directory 3 1)).insert "00000000000000cc" (directory 4 2) }

/-- The removal of the second package fails. -/
def env : EvictEnv where
  sort := SortBy.insertion _
  remove hex := if hex = "00000000000000bb" then .failed (fun _ => true) 5 else .done

end Sample

theorem evictToCapacity_exact_threePackages :
    Exact 4 Sample.env [⟨"00000000000000aa"⟩] Sample.threePackages := by
  refine evictToCapacity_exact (by decide) ?_ (by decide)
  intro name hname
  have hall : ∀ name ∈ Sample.threePackages.dirs.keys,
      matchesHex16 name = true → isHex16 name = true := by decide
  exact hall name (AList.mem_keys.mp hname)

/-! ## Removals that fail midway -/

/-- A package directory is as complete as before, or is no longer taken for a package. -/
def NoneBroken (d d' : Disk) : Prop :=
  ∀ key p, isHex16 key.hex = true → d.dirs.lookup (dashDir key) = some p →
    (∃ q, d'.dirs.lookup (dashDir key) = some q ∧ q.files = p.files) ∨ dashExists key d' = false

/-- A removal that fails on a package with a manifest has deleted the manifest, or no
file at all. -/
def ManifestGoesFirst (maxBytes : UInt64) (env : EvictEnv) (skipKeys : List PlaybackKey)
    (d : Disk) : Prop :=
  ∀ key p keep time, isHex16 key.hex = true → d.dirs.lookup (dashDir key) = some p →
    Attempts maxBytes env skipKeys d (dashDir key) →
    env.remove (dashDir key) = .failed keep time → hasManifest p = true →
    keep "manifest.mpd" = true → ∀ name ∈ p.files, keep name = true

section Pass

variable {maxBytes : UInt64} {env : EvictEnv} {skipKeys : List PlaybackKey} {d : Disk}

theorem retain_eq_self_iff (files : Table String File) (keep : String → Bool) :
    files.retain (fun name _ => keep name) = files ↔ ∀ name ∈ files, keep name = true := by
  rw [AList.ext_iff, Table.entries_retain, List.filter_eq_self]
  constructor
  · intro h name hname
    obtain ⟨f, hf⟩ := Table.mem_iff_lookup.mp hname
    exact h ⟨name, f⟩ (AList.mem_lookup_iff.mp hf)
  · intro h e he
    exact h e.1 (AList.mem_keys.mpr (List.mem_keys_of_mem he))

/-- What a failing removal leaves of a package, and whether it still counts. -/
theorem lookup_of_failed {key : PlaybackKey} {p : PackageDir} {keep : String → Bool} {time : Int}
    (hp : d.dirs.lookup (dashDir key) = some p)
    (ha : Attempts maxBytes env skipKeys d (dashDir key))
    (hr : env.remove (dashDir key) = .failed keep time) :
    (evictToCapacity maxBytes env skipKeys d).1.dirs.lookup (dashDir key) =
        some ⟨p.files.retain fun name _ => keep name, time⟩ ∧
      dashExists key (evictToCapacity maxBytes env skipKeys d).1 =
        (hasManifest p && keep "manifest.mpd") := by
  have hpost : (evictToCapacity maxBytes env skipKeys d).1.dirs.lookup (dashDir key) =
      some ⟨p.files.retain fun name _ => keep name, time⟩ := by
    rw [evictToCapacity_lookup, if_pos ha, hp, Option.bind_some, hr]
    rfl
  refine ⟨hpost, ?_⟩
  rw [dashExists, hpost]
  exact hasManifest_retain p keep time

/-- A pass leaves no broken package that still counts as cached exactly when its failing
removals take the manifest first. -/
theorem noneBroken_iff : NoneBroken d (evictToCapacity maxBytes env skipKeys d).1 ↔
    ManifestGoesFirst maxBytes env skipKeys d := by
  constructor
  · intro h key p keep time hhex hp ha hr hm hkeep
    obtain ⟨hpost, hexists⟩ := lookup_of_failed hp ha hr
    rcases h key p hhex hp with ⟨q, hq, hfiles⟩ | hgone
    · obtain rfl := Option.some.inj (hpost.symm.trans hq)
      exact (retain_eq_self_iff _ _).mp hfiles
    · rw [hexists, hm, hkeep] at hgone
      cases hgone
  · intro h key p hhex hp
    by_cases ha : Attempts maxBytes env skipKeys d (dashDir key)
    · cases hr : env.remove (dashDir key) with
      | done =>
        refine Or.inr ?_
        rw [dashExists, evictToCapacity_lookup, if_pos ha, hp, Option.bind_some, hr]
        rfl
      | failed keep time =>
        obtain ⟨hpost, hexists⟩ := lookup_of_failed hp ha hr
        cases hboth : hasManifest p && keep "manifest.mpd" with
        | false => exact Or.inr (hexists.trans hboth)
        | true =>
          rw [Bool.and_eq_true] at hboth
          refine Or.inl ⟨_, hpost, (retain_eq_self_iff _ _).mpr ?_⟩
          exact h key p keep time hhex hp ha hr hboth.1 hboth.2
    · refine Or.inl ⟨p, ?_, rfl⟩
      rw [evictToCapacity_lookup, if_neg ha, hp]

end Pass

/-- One package of a manifest and a segment, and a removal that deletes the segment
alone. -/
def Sample.segmented : Disk :=
  { dirs := AList.insert "00000000000000aa"
      { files := AList.insert "chunk-1.m4s" { content := [0] } (AList.insert "manifest.mpd"
          { content := utf8 "<?xml" ++ List.replicate 95 32 } ∅), lastModified := 1 } ∅ }

def Sample.halfway : EvictEnv where
  sort := SortBy.insertion _
  remove _ := .failed (fun name => name == "manifest.mpd") 2

theorem not_noneBroken : ¬ ∀ (maxBytes : UInt64) (env : EvictEnv) (skipKeys : List PlaybackKey)
    (d : Disk), NoneBroken d (evictToCapacity maxBytes env skipKeys d).1 := by
  intro hall
  rcases hall 50 Sample.halfway [] Sample.segmented ⟨"00000000000000aa"⟩ _ (by decide) rfl with
    ⟨q, hq, hfiles⟩ | hgone
  · have hpost : ((evictToCapacity 50 Sample.halfway [] Sample.segmented).1.dirs.lookup
        (dashDir ⟨"00000000000000aa"⟩)).map (fun q => q.files.keys) = some ["manifest.mpd"] := by
      decide
    rw [hq, Option.map_some, hfiles] at hpost
    exact absurd hpost (by decide)
  · exact absurd hgone (by decide)

end VisionPlayback.StreamCache
