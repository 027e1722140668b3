import VisionPlayback.Http.Daemon
import VisionPlayback.Lib.Ledger
import VisionPlayback.Processor.Exports

/-!
# Where an export stands

An export that the listener waits for is a request in the queue of the processor,
then an entry of the export table, then a completion on its way back. An entry in
turn has an exporter that runs, or the completion the exporter has posted.
-/

namespace VisionPlayback

open Lib Lib.Ledger StreamCache

def Event.doneId? : Event → Option Nat
  | .exportDone requestId _ _ _ => some requestId
  | _ => none

def doneIds (q : List Event) : List Nat := q.filterMap (·.doneId?)

def Signal.finishedId? : Signal → Option Nat
  | .exportFinished requestId _ _ _ => some requestId
  | .statusChanged _ _ _ => none

def finishedIds (q : List Signal) : List Nat := q.filterMap (·.finishedId?)

theorem doneIds_cons (e : Event) (q : List Event) :
    doneIds (e :: q) = e.doneId?.toList ++ doneIds q := filterMap_cons_toList _ e q

theorem doneIds_enqueue (e : Event) (q : List Event) :
    doneIds (q ++ [e]) = doneIds q ++ e.doneId?.toList := by
  rw [doneIds, List.filterMap_append, ← doneIds, ← doneIds, doneIds_cons]
  exact congrArg _ (List.append_nil _)

theorem finishedIds_cons (s : Signal) (q : List Signal) :
    finishedIds (s :: q) = s.finishedId?.toList ++ finishedIds q := filterMap_cons_toList _ s q

theorem finishedIds_append (q q' : List Signal) :
    finishedIds (q ++ q') = finishedIds q ++ finishedIds q' := List.filterMap_append

namespace Machine

variable {cfg : Config} {env : Env} {e : Event} {q : List Event} {m m' : Machine}

/-- The exports that are asked for or under way. -/
def exportTokens (m : Machine) : List Nat := requestedIds m.queue ++ m.exports.keys

/-- The exports whose exporter runs, or has ended and waits to be seen. -/
def exporterIds (m : Machine) : List Nat := m.exporters.map (·.requestId) ++ doneIds m.queue

theorem mem_emits {s : Signal} : s ∈ m.emits ↔ .emit s ∈ m.calls := by
  rw [emits, List.mem_filterMap]
  constructor
  · intro ⟨c, hc, he⟩
    cases c with
    | emit s' =>
      obtain rfl := Option.some.inj he
      exact hc
    | auth | emplaceJob | startDownload | package | exportClip | removed => cases he
  · exact fun h => ⟨_, h, rfl⟩

theorem finishedIds_emits_eq_nil
    (h : ∀ id path ok err, .emit (.exportFinished id path ok err) ∉ m.calls) :
    finishedIds m.emits = [] := by
  rw [finishedIds, List.filterMap_eq_nil_iff]
  intro s hs
  cases s with
  | statusChanged keyHex status url => rfl
  | exportFinished id path ok err => exact absurd (mem_emits.mp hs) (h id path ok err)

/-- The slots of the other events leave the exports alone. -/
theorem other_slot (hreq : e.requestId? = none) (hdone : e.doneId? = none)
    (h : Dispatched cfg env (m.popped env q) m' e) :
    m'.exports = m.exports ∧ m'.exporters = m.exporters ∧ finishedIds m'.emits = [] := by
  have hrest : m'.exports = m.exports ∧ m'.exporters = m.exporters := by
    cases h with
    | playbackRequested hs => cases hs <;> exact ⟨rfl, rfl⟩
    | keyAccessed hs => rw [hs]; exact ⟨rfl, rfl⟩
    | downloadFinished hs => cases hs <;> exact ⟨rfl, rfl⟩
    | packageFinished hs => cases hs <;> exact ⟨rfl, rfl⟩
    | exportRequested => cases hreq
    | exportDone => cases hdone
  refine ⟨hrest.1, hrest.2, finishedIds_emits_eq_nil fun id path ok err hc => ?_⟩
  have hcalled := called h rfl hc
  cases hcalled with
  | exportRefused => cases hreq
  | exportFinished => cases hdone

/-- A slot hands tickets on: from a request to an entry or to a refusal, and from an
entry to its completion. -/
structure HandsOn (m m' : Machine) : Prop where
  tokens : m.exportTokens.Perm (m'.exportTokens ++ finishedIds m'.emits)
  exporters : Balanced m'.exporterIds m'.exports

theorem handsOn_refused {requestId : Nat} {keyHex : String} {startSec endSec : Int}
    (hw : Balanced m.exporterIds m.exports)
    (hq : m.queue = .exportRequested requestId keyHex startSec endSec :: q) :
    HandsOn m ((m.popped env q).call (.emit (.exportFinished requestId "" false "not ready"))) where
  tokens := by
    have hm : m.exportTokens = requestId :: (requestedIds q ++ m.exports.keys) := by
      rw [exportTokens, hq, requestedIds_cons]
      rfl
    rw [hm]
    exact (List.perm_append_singleton _ _).symm
  exporters := by
    have hm : m.exporterIds = m.exporters.map (·.requestId) ++ doneIds q := by
      rw [exporterIds, hq, doneIds_cons]
      rfl
    rw [hm] at hw
    exact hw

theorem handsOn_started {w : ClipExport} {keyHex : String} {startSec endSec : Int}
    (hw : Balanced m.exporterIds m.exports) (hnd : m.exportTokens.Nodup)
    (hq : m.queue = .exportRequested w.requestId keyHex startSec endSec :: q) :
    HandsOn m ((m.popped env q).launchExporter w ⟨keyHex⟩) := by
  have hm : m.exportTokens = w.requestId :: (requestedIds q ++ m.exports.keys) := by
    rw [exportTokens, hq, requestedIds_cons]
    rfl
  have hnew : w.requestId ∉ m.exports := by
    intro h
    rw [hm, List.nodup_cons] at hnd
    exact hnd.1 (List.mem_append_right _ (AList.mem_keys.mp h))
  have hx : ((m.popped env q).launchExporter w ⟨keyHex⟩).exports =
      m.exports.insert w.requestId ⟨w, ⟨keyHex⟩⟩ := by
    simp only [launchExporter, popped, Table.emplace_of_notMem hnew]
  constructor
  · have htokens : ((m.popped env q).launchExporter w ⟨keyHex⟩).exportTokens =
        requestedIds q ++ w.requestId :: m.exports.keys := by
      rw [exportTokens, hx, Table.keys_insert hnew]
      rfl
    have hfin : finishedIds ((m.popped env q).launchExporter w ⟨keyHex⟩).emits = [] := rfl
    rw [hm, htokens, hfin, List.append_nil]
    exact List.perm_middle.symm
  · have hids : (w.requestId :: m.exporterIds).Perm
        ((m.popped env q).launchExporter w ⟨keyHex⟩).exporterIds := by
      have he : ((m.popped env q).launchExporter w ⟨keyHex⟩).exporterIds =
          (m.exporters.map (·.requestId) ++ [w.requestId]) ++ doneIds q := by
        simp only [exporterIds, launchExporter, popped, List.map_append, List.map_cons,
          List.map_nil]
      have hold : m.exporterIds = m.exporters.map (·.requestId) ++ doneIds q := by
        rw [exporterIds, hq, doneIds_cons]
        rfl
      rw [he, hold, List.append_assoc]
      exact List.perm_middle.symm
    rw [hx]
    exact (hw.issue hnew _).moved hids

theorem handsOn_finished {requestId : Nat} {ok : Bool} {path err : String} {x : Export}
    (hw : Balanced m.exporterIds m.exports)
    (hq : m.queue = .exportDone requestId ok path err :: q)
    (hx : m.exports.lookup requestId = some x) :
    HandsOn m (({ m.popped env q with
      exportingRefcount := releaseRefcount x.key.hex m.exportingRefcount
      exports := m.exports.erase requestId }).call
        (.emit (.exportFinished requestId path ok err))) where
  tokens := by
    have hkeys : m.exports.keys.Perm (requestId :: (m.exports.erase requestId).keys) :=
      Table.keys_erase (Table.mem_iff_lookup.mpr ⟨x, hx⟩)
    have hm : m.exportTokens = requestedIds q ++ m.exports.keys := by
      rw [exportTokens, hq, requestedIds_cons]
      rfl
    calc m.exportTokens
      _ = requestedIds q ++ m.exports.keys := hm
      List.Perm _ (requestedIds q ++ requestId :: (m.exports.erase requestId).keys) :=
        hkeys.append_left _
      List.Perm _ (requestId :: (requestedIds q ++ (m.exports.erase requestId).keys)) :=
        List.perm_middle
      List.Perm _ (requestedIds q ++ (m.exports.erase requestId).keys ++ [requestId]) :=
        (List.perm_append_singleton _ _).symm
  exporters := by
    apply hw.settle
    rw [exporterIds, hq, doneIds_cons]
    exact List.perm_middle

theorem handsOn_dispatched (hw : Balanced m.exporterIds m.exports)
    (hnd : m.exportTokens.Nodup) (hq : m.queue = e :: q)
    (h : Dispatched cfg env (m.popped env q) m' e) : HandsOn m m' := by
  have other : e.requestId? = none → e.doneId? = none → HandsOn m m' := by
    intro hreq hdone
    obtain ⟨hx, hrun, hfin⟩ := other_slot hreq hdone h
    have hqueue : m'.queue = q := h.queue_eq
    constructor
    · rw [hfin, List.append_nil, exportTokens, exportTokens, hx, hqueue, hq, requestedIds_cons,
        hreq]
      exact List.Perm.refl _
    · rw [exporterIds, hq, doneIds_cons, hdone] at hw
      rw [exporterIds, hx, hrun, hqueue]
      exact hw
  cases h with
  | playbackRequested | keyAccessed | downloadFinished | packageFinished => exact other rfl rfl
  | @exportRequested requestId keyHex startSec endSec hs =>
    cases hs with
    | notReady hdash => exact handsOn_refused hw hq
    | started hdash =>
      exact handsOn_started (w := clipExport requestId keyHex startSec endSec) hw hnd hq
  | @exportDone requestId ok path err hs =>
    cases hs with
    | ignored hexp =>
      -- the exporter that posted the completion has its entry
      have hmem : requestId ∈ m.exporterIds := by
        rw [exporterIds, hq, doneIds_cons]
        exact List.mem_append_right _ List.mem_cons_self
      obtain ⟨x, hx⟩ := Table.mem_iff_lookup.mp (hw.mem_iff.mp hmem)
      exact absurd (hx.symm.trans hexp) (by simp)
    | finished hexp => exact handsOn_finished hw hq hexp

/-- What workers do by themselves keeps the tickets where they are; an exporter that
ends leaves its completion in its place. -/
theorem handsOn_internal {a : Action} (hw : Balanced m.exporterIds m.exports)
    (hnd : m.exportTokens.Nodup) (h : Machine.step cfg a m = some m') (ha : a.internal = true) :
    HandsOn m m' := by
  have still : ∀ m' : Machine, m'.calls = [] → m'.exports = m.exports →
      requestedIds m'.queue = requestedIds m.queue → m.exporterIds.Perm m'.exporterIds →
      HandsOn m m' := by
    intro m' hcalls hx hreq hids
    constructor
    · rw [exportTokens, exportTokens, hx, hreq, emits, hcalls]
      exact (List.append_nil _).symm ▸ List.Perm.refl _
    · rw [hx]
      exact hw.moved hids
  cases stepped h with
  | handle hq hclock hs => exact handsOn_dispatched hw hnd hq hs
  | downloadWrite | packageWrite | exportWrite => exact still _ rfl rfl rfl (List.Perm.refl _)
  | downloadExit | packageExit =>
    refine still _ rfl rfl ?_ ?_
    · rw [requestedIds_enqueue]
      exact List.append_nil _
    · simp only [exporterIds, doneIds_enqueue]
      exact (List.append_nil _).symm ▸ List.Perm.refl _
  | @exportExit w ok err hrun =>
    refine still _ rfl rfl ?_ ?_
    · rw [requestedIds_enqueue]
      exact List.append_nil _
    · have hmap : (m.exporters.map (·.requestId)).Perm
          (w.requestId :: (m.exporters.erase w).map (·.requestId)) :=
        (List.perm_cons_erase hrun).map _
      simp only [exporterIds, doneIds_enqueue]
      rw [← List.append_assoc]
      exact (hmap.append_right _).trans (List.perm_append_singleton _ _).symm
  | post | access | requestExport | dropExport | restart => cases ha

def Action.requestId? : Action → Option Nat
  | .requestExport requestId _ _ _ => some requestId
  | _ => none

/-- What comes from outside adds a request at most. -/
theorem tickets_external {a : Action} (h : Machine.step cfg a m = some m')
    (ha : a.internal = false) (hr : a ≠ .restart) :
    m'.exportTokens.Perm (a.requestId?.toList ++ m.exportTokens) ∧
      m'.exporterIds = m.exporterIds ∧ m'.exports = m.exports := by
  cases stepped h with
  | post | access =>
    refine ⟨?_, ?_, rfl⟩
    · simp only [exportTokens, requestedIds_enqueue]
      exact (List.append_nil (requestedIds m.queue)).symm ▸ List.Perm.refl _
    · simp only [exporterIds, doneIds_enqueue]
      exact congrArg _ (List.append_nil _)
  | requestExport =>
    refine ⟨?_, ?_, rfl⟩
    · simp only [exportTokens, requestedIds_enqueue, List.append_assoc]
      exact List.perm_middle
    · simp only [exporterIds, doneIds_enqueue]
      exact congrArg _ (List.append_nil _)
  | dropExport => exact ⟨List.Perm.refl _, rfl, rfl⟩
  | handle | downloadWrite | downloadExit | packageWrite | packageExit | exportWrite
  | exportExit => cases ha
  | restart => exact absurd rfl hr

end Machine

namespace Daemon

variable {cfg : DaemonConfig} {d d' : Daemon}

/-- The exports whose request, entry or completion is on its way to the listener. -/
def exportTokens (d : Daemon) : List Nat := d.machine.exportTokens ++ finishedIds d.toHttp

/-- The books of the exports: ids against tickets, and responders against answers. -/
structure Deferred (d : Daemon) : Prop where
  tokens : Balanced d.exportTokens d.listener.pendingExports
  exporters : Balanced d.machine.exporterIds d.machine.exports
  owner : ∀ id p, d.listener.pendingExports.lookup id = some p →
    ∃ a ∈ d.accepted, a.requestId = id ∧ a.responder = p.responder
  numbered : ∀ a ∈ d.accepted, a.responder < d.nextResponder
  distinct : (d.accepted.map (·.responder)).Nodup
  answers : (d.accepted.map (·.responder)).Perm
    (d.listener.pendingExports.values.map (·.responder) ++ d.replies.map (·.responder))

theorem Deferred.start (disk : Disk) : Deferred (start disk) where
  tokens := balanced_empty
  exporters := balanced_empty
  owner id p h := by cases h
  numbered a h := by cases h
  distinct := List.nodup_nil
  answers := List.Perm.refl _

/-- Nothing is accepted or answered, and the tickets only change hands. -/
theorem Deferred.frame (hi : Deferred d) (hp : d'.listener.pendingExports = d.listener.pendingExports)
    (ha : d'.accepted = d.accepted) (hn : d'.nextResponder = d.nextResponder)
    (hr : d'.replies = d.replies) (ht : d.exportTokens.Perm d'.exportTokens)
    (hx : Balanced d'.machine.exporterIds d'.machine.exports) : Deferred d' where
  tokens := by
    rw [hp]
    exact hi.tokens.moved ht
  exporters := hx
  owner := by
    rw [hp, ha]
    exact hi.owner
  numbered := by
    rw [ha, hn]
    exact hi.numbered
  distinct := by
    rw [ha]
    exact hi.distinct
  answers := by
    rw [hp, ha, hr]
    exact hi.answers

theorem Deferred.external {b : Machine.Action} (hi : Deferred d)
    (hs : Machine.step cfg.processor b d.machine = some d'.machine) (hb : b.internal = false)
    (hr : b ≠ .restart) (hreq : b.requestId? = none)
    (hp : d'.listener.pendingExports = d.listener.pendingExports)
    (ha : d'.accepted = d.accepted) (hn : d'.nextResponder = d.nextResponder)
    (hrep : d'.replies = d.replies) (hq : d'.toHttp = d.toHttp) : Deferred d' := by
  obtain ⟨htokens, hids, hx⟩ := Machine.tickets_external hs hb hr
  rw [hreq] at htokens
  refine hi.frame hp ha hn hrep ?_ ?_
  · rw [exportTokens, exportTokens, hq]
    exact (htokens.append_right _).symm
  · rw [hids, hx]
    exact hi.exporters

/-- A download is accepted under an id that no download in flight has. -/
theorem Deferred.accepted {request : ExportRequest} {filename : String} {machine : Machine}
    (hi : Deferred d)
    (hs : Machine.step cfg.processor (.requestExport d.listener.freshExportId request.hash
      request.startSec request.endSec) d.machine = some machine)
    (hnew : d.listener.freshExportId ∉ d.listener.pendingExports) :
    Deferred { d with
      machine
      listener := d.listener.deferExport d.nextResponder filename
      nextResponder := d.nextResponder + 1
      accepted := ⟨d.nextResponder, d.listener.freshExportId, request⟩ :: d.accepted } := by
  obtain ⟨htokens, hids, hx⟩ := Machine.tickets_external hs rfl nofun
  have hpend : (d.listener.deferExport d.nextResponder filename).pendingExports =
      d.listener.pendingExports.insert d.listener.freshExportId ⟨d.nextResponder, filename⟩ := by
    simp only [Listener.deferExport, Table.emplace_of_notMem hnew]
  constructor
  · rw [hpend]
    exact (hi.tokens.issue hnew _).moved (htokens.append_right _).symm
  · rw [hids, hx]
    exact hi.exporters
  · intro id p hp
    rw [hpend, Table.lookup_insert_eq] at hp
    split at hp
    · next he =>
      obtain rfl := Option.some.inj hp
      exact ⟨_, List.mem_cons_self, he.symm, rfl⟩
    · obtain ⟨a, ha, hid, hr⟩ := hi.owner id p hp
      exact ⟨a, List.mem_cons_of_mem _ ha, hid, hr⟩
  · intro a ha
    rcases List.mem_cons.mp ha with rfl | ha
    · exact Nat.lt_succ_self _
    · exact Nat.lt_succ_of_lt (hi.numbered a ha)
  · rw [List.map_cons, List.nodup_cons]
    refine ⟨fun h => ?_, hi.distinct⟩
    obtain ⟨a, ha, he⟩ := List.mem_map.mp h
    have hlt := hi.numbered a ha
    rw [he] at hlt
    exact Nat.lt_irrefl _ hlt
  · rw [hpend, Table.values_insert hnew]
    exact hi.answers.cons _

/-- The ticket that has come back is the ticket of a pending export. -/
theorem Deferred.mem_of_finished {requestId : Nat} {outputPath error : String} {ok : Bool}
    {q : List Signal} (hi : Deferred d)
    (hq : d.toHttp = .exportFinished requestId outputPath ok error :: q) :
    requestId ∈ d.listener.pendingExports := by
  apply hi.tokens.mem_iff.mp
  rw [exportTokens, hq, finishedIds_cons]
  exact List.mem_append_right _ List.mem_cons_self

/-- A completion is answered on the responder that was kept for it. -/
theorem Deferred.answered {requestId : Nat} {outputPath error : String} {ok : Bool}
    {q : List Signal} {p : PendingExport} {machine : Machine} {reply : Reply} (hi : Deferred d)
    (hq : d.toHttp = .exportFinished requestId outputPath ok error :: q)
    (hp : d.listener.pendingExports.lookup requestId = some p)
    (hreply : reply.responder = p.responder)
    (hm : machine = dropExport cfg (if ok then some outputPath else none) d.machine) :
    Deferred { d with
      listener := { d.listener with
        pendingExports := d.listener.pendingExports.erase requestId }
      machine
      toHttp := q
      replies := reply :: d.replies } := by
  have hmachine : machine.exportTokens = d.machine.exportTokens ∧
      machine.exporterIds = d.machine.exporterIds ∧ machine.exports = d.machine.exports := by
    rcases step_of_dropExport hm with rfl | ⟨path, hs⟩
    · exact ⟨rfl, rfl, rfl⟩
    · cases Machine.stepped hs with
      | dropExport => exact ⟨rfl, rfl, rfl⟩
  obtain ⟨htokens, hids, hx⟩ := hmachine
  constructor
  · apply hi.tokens.settle
    rw [exportTokens, exportTokens, hq, finishedIds_cons, htokens]
    exact List.perm_middle
  · rw [hids, hx]
    exact hi.exporters
  · intro id p' hp'
    rw [Table.lookup_erase_eq] at hp'
    split at hp'
    · cases hp'
    · exact hi.owner id p' hp'
  · exact hi.numbered
  · exact hi.distinct
  · apply hi.answers.trans
    rw [List.map_cons, hreply]
    apply (((Table.values_erase hp).map _).append_right _).trans
    exact List.perm_middle.symm

theorem Deferred.work {b : Machine.Action} {machine : Machine} {evicted : List String}
    (hi : Deferred d) (hb : b.internal = true)
    (hs : Machine.step cfg.processor b d.machine = some machine) :
    Deferred { d with machine, toHttp := d.toHttp ++ machine.emits, evicted } := by
  have hnd : d.machine.exportTokens.Nodup := (List.nodup_append.mp hi.tokens.nodup).1
  have hon := Machine.handsOn_internal hi.exporters hnd hs hb
  refine hi.frame rfl rfl rfl rfl ?_ hon.exporters
  simp only [exportTokens, finishedIds_append]
  apply (hon.tokens.append_right _).trans
  rw [List.append_assoc]
  exact List.perm_append_comm.append_left _

/-- If the step accepts a download, its id is the id of no download in flight. -/
def IssuesFresh (a : Action) (d : Daemon) : Prop :=
  ∀ hash start stop r, a = .downloadGet hash start stop →
    Listener.checkDownload hash start stop = .ok r →
    d.listener.freshExportId ∉ d.listener.pendingExports

theorem Deferred.step_of_fresh {a : Action} (hi : Deferred d) (h : step cfg a d = some d')
    (hfresh : IssuesFresh a d) : Deferred d' := by
  cases stepped h with
  | postRejected | downloadRejected => exact hi
  | posted hpost hs => exact hi.external hs rfl nofun rfl rfl rfl rfl rfl rfl
  | dashGet hs => exact hi.external hs rfl nofun rfl rfl rfl rfl rfl rfl
  | accepted hcheck hs => exact hi.accepted hs (hfresh _ _ _ _ rfl hcheck)
  | heard hq =>
    refine hi.frame rfl rfl rfl rfl ?_ hi.exporters
    rw [exportTokens, hq, finishedIds_cons]
    exact List.Perm.refl _
  | unmatched hq hp => exact absurd (hi.mem_of_finished hq) (AList.lookup_eq_none.mp hp)
  | answered hq hp hm => exact hi.answered hq hp rfl hm
  | worked hb hs => exact hi.work hb hs

/-- Pending exports are accepted downloads, so ids that are used once are fresh. -/
theorem Deferred.issuesFresh {a : Action} (hi : Deferred d) (h : step cfg a d = some d')
    (hids : (d'.accepted.map (·.requestId)).Nodup) : IssuesFresh a d := by
  intro hash start stop r ha hcheck hmem
  obtain ⟨p, hp⟩ := Table.mem_iff_lookup.mp hmem
  obtain ⟨b, hb, hid, -⟩ := hi.owner _ p hp
  rw [ha] at h
  cases stepped h with
  | downloadRejected =>
    simp only [step, hcheck] at h
    obtain ⟨machine, -, he⟩ := Option.map_eq_some_iff.mp h
    exact Nat.succ_ne_self _ (congrArg (·.nextResponder) he)
  | accepted => exact (List.nodup_cons.mp hids).1 (List.mem_map.mpr ⟨b, hb, hid⟩)

/-- The books are kept by every step that does not use an id again. -/
theorem Deferred.step {a : Action} (hi : Deferred d) (h : step cfg a d = some d')
    (hids : (d'.accepted.map (·.requestId)).Nodup) : Deferred d' :=
  hi.step_of_fresh h (hi.issuesFresh h hids)

end Daemon

end VisionPlayback
