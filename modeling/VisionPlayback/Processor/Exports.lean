import VisionPlayback.Lib.Refcount
import VisionPlayback.Processor.Ownership

/-!
# Exports pin their packages

The reference counts are exact for the running exports, and so the skip list of
an eviction pass covers every package that an export or a job uses. Request ids
have to be unique within one process; the listener counts them up.
-/

namespace VisionPlayback

open Lib StreamCache

def Event.requestId? : Event → Option Nat
  | .exportRequested requestId _ _ _ => some requestId
  | _ => none

/-- The ids of the export requests that are still queued. -/
def requestedIds (q : List Event) : List Nat := q.filterMap (·.requestId?)

theorem requestedIds_cons (e : Event) (q : List Event) :
    requestedIds (e :: q) = e.requestId?.toList ++ requestedIds q := by
  cases h : e.requestId? <;> simp [requestedIds, h]

theorem requestedIds_enqueue (e : Event) (q : List Event) :
    requestedIds (q ++ [e]) = requestedIds q ++ e.requestId?.toList := by
  cases h : e.requestId? <;> simp [requestedIds, h]

namespace Machine

structure Exporting (m : Machine) : Prop where
  nodup : (requestedIds m.queue ++ m.exports.keys).Nodup
  known : ∀ id ∈ requestedIds m.queue ++ m.exports.keys, id ∈ m.requestIds
  exact : Refcount.Exact (·.key.hex) m.exports.values m.exportingRefcount

/-- The id of a new request has not been used in this process. -/
def FreshRequest (t : Transition Machine Action) : Prop :=
  match t.action with
  | .requestExport requestId _ _ _ => requestId ∉ t.pre.requestIds
  | _ => True

instance (t : Transition Machine Action) : Decidable (FreshRequest t) := by
  unfold FreshRequest
  split <;> infer_instance

variable {m m' : Machine}

theorem exporting_idle (hq : m.queue = []) (he : m.exports = ∅) (hr : m.exportingRefcount = ∅) :
    Exporting m where
  nodup := by simp [hq, he, requestedIds]
  known := by simp [hq, he, requestedIds]
  exact := by
    rw [he, hr]
    exact Refcount.exact_empty _

theorem Exporting.frame (hi : Exporting m) (hq : requestedIds m'.queue = requestedIds m.queue)
    (he : m'.exports = m.exports) (hr : m'.exportingRefcount = m.exportingRefcount)
    (hids : m'.requestIds = m.requestIds) : Exporting m' where
  nodup := by
    rw [hq, he]
    exact hi.nodup
  known := by
    rw [hq, he, hids]
    exact hi.known
  exact := by
    rw [he, hr]
    exact hi.exact

theorem Exporting.enqueue {e : Event} (hi : Exporting m) (hq : m'.queue = m.queue ++ [e])
    (he : e.requestId? = none) (hx : m'.exports = m.exports)
    (hr : m'.exportingRefcount = m.exportingRefcount) (hids : m'.requestIds = m.requestIds) :
    Exporting m' := by
  refine hi.frame ?_ hx hr hids
  rw [hq, requestedIds_enqueue, he]
  exact List.append_nil _

theorem Exporting.request {requestId : Nat} {keyHex : String} {startSec endSec : Int}
    (hi : Exporting m) (hfresh : requestId ∉ m.requestIds)
    (hq : m'.queue = m.queue ++ [.exportRequested requestId keyHex startSec endSec])
    (hx : m'.exports = m.exports) (hr : m'.exportingRefcount = m.exportingRefcount)
    (hids : m'.requestIds = requestId :: m.requestIds) : Exporting m' := by
  have hperm : (requestedIds m'.queue ++ m'.exports.keys).Perm
      (requestId :: (requestedIds m.queue ++ m.exports.keys)) := by
    rw [hq, hx, requestedIds_enqueue, List.append_assoc]
    exact List.perm_middle
  constructor
  · rw [hperm.nodup_iff, List.nodup_cons]
    exact ⟨fun h => hfresh (hi.known _ h), hi.nodup⟩
  · intro id hid
    rw [hids]
    rcases List.mem_cons.mp (hperm.mem_iff.mp hid) with rfl | hid
    · exact List.mem_cons_self
    · exact List.mem_cons_of_mem _ (hi.known id hid)
  · rw [hx, hr]
    exact hi.exact

theorem Exporting.pop {e : Event} {q : List Event} (hi : Exporting m) (env : Env)
    (hq : m.queue = e :: q) : Exporting (m.popped env q) where
  nodup := by
    have h := hi.nodup
    rw [hq, requestedIds_cons, List.append_assoc] at h
    exact h.of_append_right
  known id hid := by
    apply hi.known id
    rw [hq, requestedIds_cons, List.append_assoc]
    exact List.mem_append_right _ hid
  exact := hi.exact

/-- The id of a request whose slot starts belongs to no export yet. -/
theorem Exporting.head {q : List Event} {requestId : Nat} {keyHex : String} {startSec endSec : Int}
    (hi : Exporting m) (hq : m.queue = .exportRequested requestId keyHex startSec endSec :: q) :
    requestId ∉ requestedIds q ++ m.exports.keys ∧ requestId ∈ m.requestIds := by
  have h := hi.nodup
  have hk := hi.known requestId
  rw [hq, requestedIds_cons] at h hk
  exact ⟨(List.nodup_cons.mp h).1, hk List.mem_cons_self⟩

theorem Exporting.launch {w : ClipExport} {key : PlaybackKey} (hi : Exporting m)
    (hfresh : w.requestId ∉ requestedIds m.queue ++ m.exports.keys)
    (hknown : w.requestId ∈ m.requestIds) : Exporting (m.launchExporter w key) := by
  have hnew : w.requestId ∉ m.exports := by
    intro h
    exact hfresh (List.mem_append_right _ (AList.mem_keys.mp h))
  have hx : (m.launchExporter w key).exports = m.exports.insert w.requestId ⟨w, key⟩ := by
    simp only [launchExporter, Table.emplace_of_notMem hnew]
  have hperm : (requestedIds m.queue ++ (m.launchExporter w key).exports.keys).Perm
      (w.requestId :: (requestedIds m.queue ++ m.exports.keys)) := by
    rw [hx, Table.keys_insert hnew]
    exact List.perm_middle
  constructor
  · refine hperm.nodup_iff.mpr (List.nodup_cons.mpr ⟨hfresh, hi.nodup⟩)
  · intro id hid
    rcases List.mem_cons.mp (hperm.mem_iff.mp hid) with rfl | hid
    · exact hknown
    · exact hi.known id hid
  · rw [hx, Table.values_insert hnew]
    exact hi.exact.acquire (Export.mk w key)

theorem Exporting.finish {requestId : Nat} {e : Export} (hi : Exporting m)
    (hexp : m.exports.lookup requestId = some e) (hq : m'.queue = m.queue)
    (hx : m'.exports = m.exports.erase requestId)
    (hr : m'.exportingRefcount = releaseRefcount e.key.hex m.exportingRefcount)
    (hids : m'.requestIds = m.requestIds) : Exporting m' := by
  have hkeys : (m.exports.keys).Perm (requestId :: (m.exports.erase requestId).keys) :=
    Table.keys_erase (Table.mem_iff_lookup.mpr ⟨e, hexp⟩)
  have hsub : (requestedIds m.queue ++ m.exports.keys).Perm
      (requestId :: (requestedIds m'.queue ++ m'.exports.keys)) := by
    rw [hq, hx]
    exact (hkeys.append_left _).trans List.perm_middle
  constructor
  · exact (List.nodup_cons.mp (hsub.nodup_iff.mp hi.nodup)).2
  · intro id hid
    rw [hids]
    exact hi.known id (hsub.mem_iff.mpr (List.mem_cons_of_mem _ hid))
  · rw [hx, hr]
    exact hi.exact.release (Table.values_erase hexp)

theorem Exporting.dispatched {cfg : Config} {env : Env} {e : Event} {q : List Event}
    (hi : Exporting m) (hq : m.queue = e :: q) (h : Dispatched cfg env (m.popped env q) m' e) :
    Exporting m' := by
  have hi' : Exporting (m.popped env q) := hi.pop env hq
  cases h with
  | playbackRequested hs =>
    cases hs with
    | active hdash hjob => exact hi'
    | ready | refused | shortcut | download => exact hi'.frame rfl rfl rfl rfl
  | keyAccessed hs =>
    obtain rfl := hs
    exact hi'.frame rfl rfl rfl rfl
  | exportRequested hs =>
    cases hs with
    | notReady hdash => exact hi'.frame rfl rfl rfl rfl
    | started hdash => exact hi'.launch (hi.head hq).1 (hi.head hq).2
  | downloadFinished hs =>
    cases hs with
    | ignored hjob => exact hi'
    | failed | packaging => exact hi'.frame rfl rfl rfl rfl
  | packageFinished hs =>
    cases hs with
    | ignored hjob => exact hi'
    | failed | ready => exact hi'.frame rfl rfl rfl rfl
  | exportDone hs =>
    cases hs with
    | ignored hexp => exact hi'
    | finished hexp => exact hi'.finish hexp rfl rfl rfl rfl

theorem Exporting.step {cfg : Config} {a : Action} (hi : Exporting m)
    (h : Machine.step cfg a m = some m') (hfresh : FreshRequest ⟨m, a, m'⟩) : Exporting m' := by
  cases stepped h with
  | requestExport => exact hi.request hfresh rfl rfl rfl rfl
  | handle hq hclock hs => exact hi.dispatched hq hs
  | post | access | downloadExit | packageExit | exportExit =>
    exact hi.enqueue rfl rfl rfl rfl rfl
  | dropExport | downloadWrite | packageWrite | exportWrite => exact hi.frame rfl rfl rfl rfl
  | restart => exact exporting_idle rfl rfl rfl

theorem mem_skipKeys {env : Env} {k : PlaybackKey}
    (h : k ∈ m.activeJobs ∨ k.hex ∈ m.exportingRefcount) : k ∈ m.skipKeys env := by
  simp only [skipKeys, List.mem_append, List.mem_map]
  rcases h with h | h
  · exact Or.inl (Or.inl (AList.mem_keys.mp h))
  · exact Or.inr ⟨k.hex, AList.mem_keys.mp h, rfl⟩

theorem mem_skipKeys_of_access {env : Env} {hex : String} {accessMs : Int}
    (ha : m.lastAccessMs.lookup hex = some accessMs)
    (hrecent : env.nowMs - accessMs ≤ kAccessTtlMs) : ⟨hex⟩ ∈ m.skipKeys env := by
  have hkept : hex ∈ Table.retain (recentlyAccessed env.nowMs) m.lastAccessMs := by
    rw [Table.mem_iff_lookup]
    refine ⟨accessMs, ?_⟩
    rw [Table.lookup_retain, ha, Option.filter_some, recentlyAccessed, decide_eq_true hrecent,
      if_pos rfl]
  simp only [skipKeys, List.mem_append, List.mem_map]
  exact Or.inl (Or.inr ⟨hex, AList.mem_keys.mp hkept, rfl⟩)

/-- The package of a key is in use: it has a job or an export. -/
def InUse (m : Machine) (k : PlaybackKey) : Prop :=
  k ∈ m.activeJobs ∨ ∃ requestId e, m.exports.lookup requestId = some e ∧ e.key = k

theorem Exporting.mem_skipKeys {env : Env} {k : PlaybackKey} (hi : Exporting m)
    (h : InUse m k) : k ∈ m.skipKeys env := by
  refine Machine.mem_skipKeys (h.imp_right fun ⟨id, e, he, hk⟩ => ?_)
  exact hi.exact.mem_iff.mpr ⟨e, Table.mem_values.mpr ⟨id, he⟩, congrArg PlaybackKey.hex hk⟩

/-- An eviction pass leaves every package in use as it was. -/
theorem Exporting.evict {cfg : Config} {env : Env} {k : PlaybackKey} (hi : Exporting m)
    (h : InUse m k) : (m.evict cfg env).disk.dirs.lookup (dashDir k) =
        m.disk.dirs.lookup (dashDir k) ∧
      k.hex ∉ (evictToCapacity cfg.maxDownloadsBytes env.evict (m.skipKeys env) m.disk).2 := by
  have hskip : k ∈ m.skipKeys env := hi.mem_skipKeys h
  refine ⟨evictToCapacity_skipped hskip, fun hmem => ?_⟩
  exact (mem_evictToCapacity_snd _ |>.mp hmem).1.2.1 hskip

theorem Exporting.beforeEvict {key : PlaybackKey} (hi : Exporting m) :
    Exporting (m.beforeEvict key) := hi.frame rfl rfl rfl rfl

theorem Exporting.removed {cfg : Config} {a : Action} {k : PlaybackKey} (hi : Exporting m)
    (hs : Machine.step cfg a m = some m') (huse : InUse m' k) : .removed k.hex ∉ m'.calls := by
  intro hmem
  obtain ⟨env, e, q, rfl, hq, hd, hc⟩ := called_of_step hs hmem
  cases hc with
  | removed hjob hhex =>
    cases hd with
    | packageFinished hh =>
      cases hh with
      | ignored hnone => exact absurd (Table.mem_iff_lookup.mp hjob) (by simp [hnone])
      | failed hsome hok => cases hok
      | ready hsome hok =>
        exact ((hi.pop env hq).beforeEvict.evict huse).2 hhex

theorem Exporting.untouched {cfg : Config} {env : Env} {w : Nat} {key k : PlaybackKey} {ok : Bool}
    {err : String} {q : List Event} (hi : Exporting m)
    (hs : Machine.step cfg (.handle env) m = some m')
    (hq : m.queue = .packageFinished w key ok err :: q) (huse : InUse m' k) :
    m'.disk.dirs.lookup (dashDir k) = m.disk.dirs.lookup (dashDir k) := by
  cases stepped hs with
  | handle hq' hclock hd =>
    obtain ⟨rfl, rfl⟩ := List.cons.inj (hq.symm.trans hq')
    cases hd with
    | packageFinished hh =>
      cases hh with
      | ignored | failed => rfl
      | ready hjob hok => exact ((hi.pop env hq).beforeEvict.evict huse).1

/-- In a run whose request ids are unique the counts are exact in every state, and
no pass removes, or even changes, the package of a key with an export or a job. -/
theorem eviction_spares_in_use {cfg : Config} {d : Disk} {tr : List (Transition Machine Action)}
    (h : (system cfg).Run (start d) tr m) (hids : ∀ t ∈ tr, FreshRequest t) :
    (∀ hex, m.exportingRefcount.lookup hex =
      if (m.exports.values.countP fun e => decide (e.key.hex = hex)) = 0 then none
      else some ((m.exports.values.countP fun e => decide (e.key.hex = hex) : Nat) : Int)) ∧
    ∀ t ∈ tr, ∀ k, InUse t.post k → .removed k.hex ∉ t.post.calls ∧
      ∀ env w key ok err q, t.action = .handle env →
        t.pre.queue = .packageFinished w key ok err :: q →
        t.post.disk.dirs.lookup (dashDir k) = t.pre.disk.dirs.lookup (dashDir k) := by
  have hinv := h.invariant_of (I := Exporting) hids (exporting_idle rfl rfl rfl)
    fun t hi hs hf => hi.step hs hf
  refine ⟨hinv.1.exact, fun t ht k huse => ?_⟩
  have hpre : Exporting t.pre := (hinv.2 t ht).1
  have hs : Machine.step cfg t.action t.pre = some t.post := (h.transition ht).2
  refine ⟨hpre.removed hs huse, fun env w key ok err q ha hq => ?_⟩
  rw [ha] at hs
  exact hpre.untouched hs hq huse

/-- Two exports of one package, and a pass that is over the capacity. -/
def overlappingExports : List Action :=
  [.post (Sample.request "00000000000000aa"), .handle Sample.env,
    .downloadExit (Sample.downloader 0 "00000000000000aa") true "", .handle Sample.env,
    .packageWrite (Sample.packager 1 "00000000000000aa") (Sample.package 0),
    .requestExport 1 "00000000000000aa" 0 5, .requestExport 2 "00000000000000aa" 5 9,
    .handle Sample.env, .handle Sample.env,
    .packageExit (Sample.packager 1 "00000000000000aa") true "", .handle Sample.env]

theorem eviction_spares_overlappingExports :
    ∃ h : ((system Sample.smallConfig).replay (start {}) overlappingExports).isSome = true,
      let r := ((system Sample.smallConfig).replay (start {}) overlappingExports).get h
      r.2.exportingRefcount.lookup "00000000000000aa" = some 2 ∧
        (∀ hex, r.2.exportingRefcount.lookup hex =
          if (r.2.exports.values.countP fun e => decide (e.key.hex = hex)) = 0 then none
          else some ((r.2.exports.values.countP fun e => decide (e.key.hex = hex) : Nat) : Int)) ∧
        ∀ t ∈ r.1, ∀ k, InUse t.post k → .removed k.hex ∉ t.post.calls ∧
          ∀ env w key ok err q, t.action = .handle env →
            t.pre.queue = .packageFinished w key ok err :: q →
            t.post.disk.dirs.lookup (dashDir k) = t.pre.disk.dirs.lookup (dashDir k) :=
  ⟨by decide, by decide, eviction_spares_in_use (System.run_get _) (by decide)⟩

end Machine

end VisionPlayback
