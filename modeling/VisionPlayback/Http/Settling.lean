import VisionPlayback.Http.Downloads
import VisionPlayback.Http.Polling
import VisionPlayback.Lib.Settling

/-!
# The daemon comes to rest

With no new request, the slots, the ends of the workers and the deliveries use up
the work that is in the daemon, whatever the workers write. When none of them is
possible any more, every job, export and download is closed, and every id that was
acknowledged is ready or failed.
-/

namespace VisionPlayback

open Lib Lib.Ledger

/-- One step for the slot of the event, and one for every step that the slot can
lead to. -/
def Event.weight : Event → Nat
  | .playbackRequested _ => 8
  | .keyAccessed _ => 1
  | .exportRequested _ _ _ _ => 4
  | .downloadFinished _ _ _ _ => 5
  | .packageFinished _ _ _ _ => 2
  | .exportDone _ _ _ _ => 2

def queueWeight (q : List Event) : Nat := (q.map (·.weight)).sum

theorem queueWeight_cons (e : Event) (q : List Event) :
    queueWeight (e :: q) = e.weight + queueWeight q := by
  simp [queueWeight]

theorem queueWeight_enqueue (q : List Event) (e : Event) :
    queueWeight (q ++ [e]) = queueWeight q + e.weight := by
  simp [queueWeight]

namespace Machine

/-- What is queued and what runs. -/
def weight (m : Machine) : Nat :=
  queueWeight m.queue + 6 * m.downloaders.length + 3 * m.packagers.length +
    3 * m.exporters.length

/-- The weight, and a delivery for each signal of the slot that ran last. -/
def load (m : Machine) : Nat := m.weight + m.emits.length

section Load

variable {cfg : Config} {env : Env} {m m' : Machine}

theorem emits_append (cs : List Call) (h : m'.calls = m.calls ++ cs) :
    m'.emits = m.emits ++ cs.filterMap (·.signal?) := by
  rw [emits, h, List.filterMap_append]
  rfl

theorem load_append (cs : List Call) (hw : m'.weight = m.weight)
    (h : m'.calls = m.calls ++ cs) :
    m'.load = m.load + (cs.filterMap (·.signal?)).length := by
  rw [load, load, hw, emits_append cs h, List.length_append, Nat.add_assoc]

theorem load_emit (s : Signal) (m : Machine) : (m.call (.emit s)).load = m.load + 1 :=
  load_append [.emit s] rfl rfl

theorem load_statusChanged (key : PlaybackKey) (status : StreamStatus) (url : String)
    (m : Machine) : (m.statusChanged key status url).load = m.load + 1 := load_emit _ m

theorem load_emplaceJob (key : PlaybackKey) (inserted : Bool) (m : Machine) :
    (m.call (.emplaceJob key inserted)).load = m.load :=
  load_append [.emplaceJob key inserted] rfl rfl

theorem load_afterLogin (cache : LoginUseCase.Cache) (calls : List AuthCall) (m : Machine) :
    (m.afterLogin cache calls).load = m.load := by
  have h : (calls.map Call.auth).filterMap (·.signal?) = [] := by
    simp [List.filterMap_map, Call.signal?]
  have hl : (m.afterLogin cache calls).load =
      m.load + ((calls.map Call.auth).filterMap (·.signal?)).length :=
    load_append (calls.map .auth) rfl rfl
  rw [hl, h]
  rfl

theorem load_evict (cfg : Config) (env : Env) (m : Machine) :
    (m.evict cfg env).load = m.load := by
  have h : ∀ l : List String, (l.map Call.removed).filterMap (·.signal?) = [] := by
    intro l
    simp [List.filterMap_map, Call.signal?]
  have hl := load_append (m := m) _ (rfl : (m.evict cfg env).weight = m.weight)
    (evict_calls cfg env m)
  rw [hl, h]
  rfl

theorem load_launchPackager (env : Env) (key : PlaybackKey) (job : Job) (m : Machine) :
    (m.launchPackager env key job).load = m.load + 4 := by
  have hw : (m.launchPackager env key job).weight = m.weight + 3 := by
    simp only [weight, launchPackager, List.length_append, List.length_singleton]
    omega
  have he : (m.launchPackager env key job).emits =
      m.emits ++ [.statusChanged key.hex .packaging ""] :=
    emits_append [.emit (.statusChanged key.hex .packaging ""), .package _] rfl
  rw [load, load, hw, he, List.length_append, List.length_singleton]
  omega

theorem load_launchDownloader (r : PlaybackRequest) (m : Machine) :
    (m.launchDownloader r).load = m.load + 7 := by
  have hw : (m.launchDownloader r).weight = m.weight + 6 := by
    simp only [weight, launchDownloader, List.length_append, List.length_singleton]
    omega
  have he : (m.launchDownloader r).emits =
      m.emits ++ [.statusChanged r.key.hex .downloading ""] :=
    emits_append [.emplaceJob r.key true, .emit (.statusChanged r.key.hex .downloading ""),
      .startDownload _] rfl
  rw [load, load, hw, he, List.length_append, List.length_singleton]
  omega

theorem load_launchExporter (w : ClipExport) (key : PlaybackKey) (m : Machine) :
    (m.launchExporter w key).load = m.load + 3 := by
  have hw : (m.launchExporter w key).weight = m.weight + 3 := by
    simp only [weight, launchExporter, List.length_append, List.length_singleton]
    omega
  have he : (m.launchExporter w key).emits = m.emits := by
    rw [emits_append (m := m) [.exportClip w] rfl]
    exact List.append_nil _
  rw [load, load, hw, he]
  omega

theorem Requested.load_le {r : PlaybackRequest} (h : Requested cfg env r m m') :
    m'.load ≤ m.load + 7 := by
  cases h with
  | ready => rw [load_statusChanged]; omega
  | active => omega
  | refused => rw [load_statusChanged, load_afterLogin]; omega
  | shortcut =>
    rw [load_launchPackager, load_statusChanged, load_emplaceJob, load_afterLogin]
    omega
  | download => rw [load_launchDownloader, load_afterLogin]

/-- A slot spends less than the weight of its event. -/
theorem Dispatched.load_lt {e : Event} (h : Dispatched cfg env m m' e) :
    m'.load < m.load + e.weight := by
  cases h with
  | playbackRequested hs =>
    have hle := hs.load_le
    simp only [Event.weight]
    omega
  | keyAccessed hs =>
    rw [hs]
    exact Nat.lt_succ_self _
  | exportRequested hs =>
    cases hs with
    | notReady => rw [load_emit]; simp only [Event.weight]; omega
    | started => rw [load_launchExporter]; simp only [Event.weight]; omega
  | @downloadFinished worker key success err hs =>
    cases hs with
    | ignored => simp only [Event.weight]; omega
    | failed =>
      have he : ({ m with activeJobs := m.activeJobs.erase key } : Machine).load = m.load := rfl
      rw [load_statusChanged, he]
      simp only [Event.weight]
      omega
    | packaging => rw [load_launchPackager]; simp only [Event.weight]; omega
  | @packageFinished worker key success err hs =>
    cases hs with
    | ignored => simp only [Event.weight]; omega
    | failed =>
      have he : ({ m with activeJobs := m.activeJobs.erase key } : Machine).load = m.load := rfl
      rw [load_statusChanged, he]
      simp only [Event.weight]
      omega
    | ready =>
      have he : (m.beforeEvict key).load = m.load := rfl
      rw [load_statusChanged, load_evict, he]
      simp only [Event.weight]
      omega
  | @exportDone requestId ok outputPath err hs =>
    cases hs with
    | ignored => simp only [Event.weight]; omega
    | @finished e hexp =>
      have he : ({ m with
          exportingRefcount := releaseRefcount e.key.hex m.exportingRefcount
          exports := m.exports.erase requestId } : Machine).load = m.load := rfl
      rw [load_emit, he]
      simp only [Event.weight]
      omega

theorem requestIds_step {a : Action} (h : Machine.step cfg a m = some m') (ha : a ≠ .restart) :
    m'.requestIds = a.requestId?.toList ++ m.requestIds := by
  cases stepped h with
  | handle hq hclock hs => exact hs.requestIds_eq
  | post | access | requestExport | dropExport | downloadWrite | downloadExit | packageWrite
  | packageExit | exportWrite | exportExit => rfl
  | restart => exact absurd rfl ha

/-- The slots and the ends of the workers. -/
def Action.settles : Action → Bool
  | .handle _ | .downloadExit _ _ _ | .packageExit _ _ _ | .exportExit _ _ _ => true
  | .post _ | .access _ | .requestExport _ _ _ _ | .dropExport _ | .downloadWrite _ _
  | .packageWrite _ _ | .exportWrite _ _ | .restart => false

/-- What a worker writes does not count. -/
theorem load_write {a : Action} (h : Machine.step cfg a m = some m') (hin : a.internal = true)
    (ha : a.settles = false) : m'.load = m.weight := by
  cases stepped h with
  | downloadWrite | packageWrite | exportWrite => rfl
  | handle | downloadExit | packageExit | exportExit => cases ha
  | post | access | requestExport | dropExport | restart => cases hin

theorem load_lt {a : Action} (h : Machine.step cfg a m = some m') (ha : a.settles = true) :
    m'.load < m.weight := by
  cases stepped h with
  | @handle env e q m' hq hclock hs =>
    have hlt := hs.load_lt
    have hpop : (m.popped env q).load + e.weight = m.weight := by
      have he : (m.popped env q).emits = [] := rfl
      rw [load, he, weight, weight, hq, queueWeight_cons]
      simp only [popped, List.length_nil]
      omega
    omega
  | downloadExit hw =>
    have hpos := List.length_pos_of_mem hw
    simp only [load, weight, emits, queueWeight_enqueue, List.length_erase_of_mem hw,
      List.filterMap_nil, List.length_nil, Event.weight]
    omega
  | packageExit hw =>
    have hpos := List.length_pos_of_mem hw
    simp only [load, weight, emits, queueWeight_enqueue, List.length_erase_of_mem hw,
      List.filterMap_nil, List.length_nil, Event.weight]
    omega
  | exportExit hw =>
    have hpos := List.length_pos_of_mem hw
    simp only [load, weight, emits, queueWeight_enqueue, List.length_erase_of_mem hw,
      List.filterMap_nil, List.length_nil, Event.weight]
    omega
  | post | access | requestExport | dropExport | downloadWrite | packageWrite | exportWrite
  | restart => cases ha

end Load

end Machine

namespace Daemon

variable {cfg : DaemonConfig} {disk : Disk} {d d' : Daemon}

/-- Steps that bring no new request. -/
def Action.quiet : Action → Bool
  | .deliver | .work _ => true
  | .playbackPost _ _ | .dashGet _ _ | .downloadGet _ _ _ => false

/-- Slots, ends of workers and deliveries. -/
def Action.settles : Action → Bool
  | .deliver => true
  | .work a => a.settles
  | .playbackPost _ _ | .dashGet _ _ | .downloadGet _ _ _ => false

def weight (d : Daemon) : Nat := d.machine.weight + d.toHttp.length

theorem weight_lt {a : Action} (h : step cfg a d = some d') (ha : a.settles = true) :
    d'.weight < d.weight := by
  cases stepped h with
  | heard hq | unmatched hq =>
    simp only [weight, hq, List.length_cons]
    omega
  | @answered requestId outputPath error ok q p machine hq hp hm =>
    have hw : machine.weight = d.machine.weight := by
      rcases step_of_dropExport hm with he | ⟨path, hs⟩
      · rw [he]
      · cases Machine.stepped hs with
        | dropExport => rfl
    simp only [weight, hq, List.length_cons]
    omega
  | worked hb hs =>
    have hlt := Machine.load_lt hs ha
    simp only [Machine.load] at hlt
    simp only [weight, List.length_append]
    omega
  | postRejected | posted | dashGet | downloadRejected | accepted => cases ha

theorem weight_le {a : Action} (h : step cfg a d = some d') (ha : a.quiet = true) :
    d'.weight ≤ d.weight := by
  cases hset : a.settles with
  | true => exact Nat.le_of_lt (weight_lt h hset)
  | false =>
    cases stepped h with
    | worked hb hs =>
      have hle := Machine.load_write hs hb hset
      simp only [Machine.load] at hle
      simp only [weight, List.length_append]
      omega
    | heard | unmatched | answered => cases hset
    | postRejected | posted | dashGet | downloadRejected | accepted => cases ha

theorem quiet_keeps {a : Action} (h : step cfg a d = some d') (ha : a.quiet = true) :
    d'.accepted = d.accepted ∧ d'.acked = d.acked := by
  cases stepped h with
  | heard | unmatched | answered | worked => exact ⟨rfl, rfl⟩
  | postRejected | posted | dashGet | downloadRejected | accepted => cases ha

/-! ## Reference counts -/

/-- The processor is asked for an export with every download that is accepted. -/
theorem machine_accepts {a : Action} (h : step cfg a d = some d') :
    (d'.machine = d.machine ∧ d'.accepted = d.accepted) ∨
      ∃ b : Machine.Action, b ≠ .restart ∧
        Machine.step cfg.processor b d.machine = some d'.machine ∧
        d'.accepted.map (·.requestId) = b.requestId?.toList ++ d.accepted.map (·.requestId) := by
  cases stepped h with
  | postRejected | downloadRejected | heard | unmatched => exact Or.inl ⟨rfl, rfl⟩
  | @posted _ _ request _ hpost hs => exact Or.inr ⟨.post request, nofun, hs, rfl⟩
  | @dashGet dir _ _ hs => exact Or.inr ⟨.access dir, nofun, hs, rfl⟩
  | @accepted _ _ _ _ request _ hcheck hs =>
    exact Or.inr ⟨.requestExport d.listener.freshExportId request.hash request.startSec
      request.endSec, nofun, hs, rfl⟩
  | answered hq hp hm =>
    rcases step_of_dropExport hm with he | ⟨path, hs⟩
    · exact Or.inl ⟨he, rfl⟩
    · exact Or.inr ⟨.dropExport path, nofun, hs, rfl⟩
  | @worked b machine hb hs =>
    refine Or.inr ⟨b, ?_, hs, ?_⟩
    · intro he
      rw [he] at hb
      cases hb
    · cases b with
      | requestExport => cases hb
      | post | access | dropExport | handle | downloadWrite | downloadExit | packageWrite
      | packageExit | exportWrite | exportExit | restart => rfl

theorem requestIds_eq (h : (system cfg).Reachable (start disk) d) :
    d.machine.requestIds = d.accepted.map (·.requestId) := by
  refine h.invariant (I := fun d => d.machine.requestIds = d.accepted.map (·.requestId)) rfl ?_
  intro a d d' hi hs
  rcases machine_accepts hs with ⟨hm, ha⟩ | ⟨b, hb, hstep, ha⟩
  · rw [hm, ha]
    exact hi
  · rw [Machine.requestIds_step hstep hb, ha, hi]

/-- The counts are exact in every daemon that has not used an id twice. -/
theorem exporting (h : (system cfg).Reachable (start disk) d) :
    (d.accepted.map (·.requestId)).Nodup → Machine.Exporting d.machine := by
  refine h.induct (I := fun d => (d.accepted.map (·.requestId)).Nodup →
    Machine.Exporting d.machine) (fun _ => Machine.exporting_idle rfl rfl rfl) ?_
  intro a d d' hr hi hs hids
  have hold : Machine.Exporting d.machine :=
    hi (hids.sublist ((accepted_suffix hs).sublist.map _))
  rcases machine_accepts hs with ⟨hm, -⟩ | ⟨b, hb, hstep, ha⟩
  · rw [hm]
    exact hold
  · apply hold.step hstep
    cases b with
    | requestExport id hex startSec endSec =>
      rw [ha] at hids
      show id ∉ d.machine.requestIds
      rw [requestIds_eq hr]
      exact (List.nodup_cons.mp hids).1
    | post | access | dropExport | handle | downloadWrite | downloadExit | packageWrite
    | packageExit | exportWrite | exportExit | restart => exact trivial

/-! ## At rest -/

/-- Nothing is queued, runs or waits. -/
structure AtRest (d : Daemon) : Prop where
  queue : d.machine.queue = []
  downloaders : d.machine.downloaders = []
  packagers : d.machine.packagers = []
  exporters : d.machine.exporters = []
  toHttp : d.toHttp = []
  jobs : d.machine.activeJobs = ∅
  /-- Every acknowledged id is ready or failed. -/
  statuses : ∀ id ∈ d.acked, d.listener.statusCache.lookup id = some .ready ∨
    d.listener.statusCache.lookup id = some .failed
  /-- The books of the exports are closed, unless the ids have gone round. -/
  exports : d.accepted.length ≤ 2 ^ 64 → d.machine.exports = ∅ ∧
    d.machine.exportingRefcount = ∅ ∧ d.listener.pendingExports = ∅ ∧
    ∀ a ∈ d.accepted, (d.replies.map (·.responder)).count a.responder = 1

/-- The steady clock may stand still. -/
def steadyEnv (m : Machine) : Env :=
  { Machine.Sample.env with
    login := { sweepNow := m.steadyNow, now := m.steadyNow, login := fun _ => 0 } }

def Stuck (cfg : DaemonConfig) (d : Daemon) : Prop :=
  (system cfg).Stuck (fun a : Action => a.settles) d

theorem Stuck.work (h : Stuck cfg d) {b : Machine.Action} (hb : b.settles = true) :
    Machine.step cfg.processor b d.machine = none := by
  have hin : b.internal = true := by
    cases b with
    | handle | downloadExit | packageExit | exportExit => rfl
    | post | access | requestExport | dropExport | downloadWrite | packageWrite | exportWrite
    | restart => cases hb
  have hstep : step cfg (.work b) d = none := h (.work b) hb
  simp only [step, hin, if_true] at hstep
  exact Option.map_eq_none_iff.mp hstep

/-- Whatever is queued or runs can take a step. -/
theorem Stuck.idle (h : Stuck cfg d) : d.machine.queue = [] ∧ d.machine.downloaders = [] ∧
    d.machine.packagers = [] ∧ d.machine.exporters = [] ∧ d.toHttp = [] := by
  refine ⟨?_, ?_, ?_, ?_, ?_⟩
  · have hs := h.work (b := .handle (steadyEnv d.machine)) rfl
    cases hq : d.machine.queue with
    | nil => rfl
    | cons e q => simp [Machine.step, Machine.act, hq, steadyEnv] at hs
  · refine List.eq_nil_iff_forall_not_mem.mpr fun w hw => ?_
    have hs := h.work (b := .downloadExit w true "") rfl
    simp [Machine.step, Machine.act, hw] at hs
  · refine List.eq_nil_iff_forall_not_mem.mpr fun w hw => ?_
    have hs := h.work (b := .packageExit w true "") rfl
    simp [Machine.step, Machine.act, hw] at hs
  · refine List.eq_nil_iff_forall_not_mem.mpr fun w hw => ?_
    have hs := h.work (b := .exportExit w true "") rfl
    simp [Machine.step, Machine.act, hw] at hs
  · have hs : step cfg .deliver d = none := h .deliver rfl
    cases hq : d.toHttp with
    | nil => rfl
    | cons s q => simp [step, hq] at hs

theorem AtRest.stuck (h : AtRest d) : Stuck cfg d := by
  intro a ha
  cases hs : (system cfg).step a d with
  | none => rfl
  | some d' =>
    cases stepped hs with
    | heard hq | unmatched hq | answered hq => rw [h.toHttp] at hq; cases hq
    | worked hb hstep =>
      cases Machine.stepped hstep with
      | handle hq => rw [h.queue] at hq; cases hq
      | downloadExit hw => rw [h.downloaders] at hw; cases hw
      | packageExit hw => rw [h.packagers] at hw; cases hw
      | exportExit hw => rw [h.exporters] at hw; cases hw
      | post | access | requestExport | dropExport | downloadWrite | packageWrite | exportWrite
      | restart => cases ha
    | postRejected | posted | dashGet | downloadRejected | accepted => cases ha

/-- A daemon that can take no more steps by itself has closed all its books. -/
theorem Stuck.atRest (h : Stuck cfg d) (hr : (system cfg).Reachable (start disk) d) :
    AtRest d := by
  obtain ⟨hq, hd, hp, hx, ht⟩ := h.idle
  have htokens : ∀ k, d.machine.tokens k = [] := by
    intro k
    simp only [Machine.tokens, tokensOf, hq, hd, hp, List.filterMap_nil, List.append_nil]
  have hnone : ∀ k, d.machine.activeJobs.lookup k = none := by
    intro k
    rw [AList.lookup_eq_none, (Machine.ownership (machine_reachable hr)).mem_iff k, htokens k]
    exact fun hne => hne rfl
  refine ⟨hq, hd, hp, hx, ht, ?_, fun id hid => ?_, fun hcount => ?_⟩
  · refine Table.eq_empty_iff.mpr (List.eq_nil_iff_forall_not_mem.mpr fun k hk => ?_)
    exact AList.lookup_eq_none.mp (hnone k) (AList.mem_keys.mpr hk)
  · obtain ⟨-, hwait⟩ := (polled hr).acked id hid
    have hview : d.view id = d.listener.statusCache.lookup id := by
      rw [view_eq, ht]
      rfl
    have hshow := (mirrors hr).shows_ ⟨id⟩
    rw [hnone, hview] at hshow
    rw [hview] at hwait
    rcases hwait with ⟨r, hmem, -⟩ | hne
    · rw [hq] at hmem
      cases hmem
    · generalize d.listener.statusCache.lookup id = v at hshow hne
      cases hshow with
      | absent => exact absurd rfl hne
      | ready => exact Or.inl rfl
      | failed => exact Or.inr rfl
  · have hids := nodup_ids hr hcount
    have hbooks := ((books hr).2 hids).1
    have hexp : d.machine.exports = ∅ := by
      have hb := hbooks.exporters
      rw [Machine.exporterIds, hx, hq] at hb
      exact Table.eq_empty_iff.mpr (List.nil_perm.mp hb)
    have hpend : d.listener.pendingExports = ∅ := by
      have hb := hbooks.tokens
      rw [exportTokens, Machine.exportTokens, hq, hexp, ht] at hb
      exact Table.eq_empty_iff.mpr (List.nil_perm.mp hb)
    refine ⟨hexp, ?_, hpend, fun a ha => ?_⟩
    · refine Table.eq_empty_iff.mpr (List.eq_nil_iff_forall_not_mem.mpr fun hex hk => ?_)
      obtain ⟨e, he, -⟩ := (exporting hr hids).exact.mem_iff.mp (AList.mem_keys.mpr hk)
      rw [hexp] at he
      cases he
    · rw [hbooks.answered_iff ha, if_neg]
      simp [Waiting, hpend]

/-- A run without new requests has at most as many slots, ends of workers and deliveries
as the daemon weighs; it is stuck exactly when the daemon is at rest, and until then it
can be carried on. Nothing accepted or acknowledged is forgotten on the way. -/
theorem comes_to_rest {tr : List (Transition Daemon Action)}
    (h : (system cfg).Reachable (start disk) d) (hrun : (system cfg).Run d tr d')
    (hc : ∀ t ∈ tr, t.action.quiet = true) :
    (tr.countP fun t => t.action.settles) + d'.weight ≤ d.weight ∧
      (Stuck cfg d' ↔ AtRest d') ∧
      ∃ newer d'', (system cfg).Run d (newer ++ tr) d'' ∧
        (∀ t ∈ newer, t.action.settles = true) ∧
        AtRest d'' ∧ d''.accepted = d.accepted ∧ d''.acked = d.acked := by
  have hw : System.Settles (system cfg) Action.quiet Action.settles
      (fun s => (system cfg).Reachable (start disk) s ∧ s.accepted = d.accepted ∧
        s.acked = d.acked) weight := by
    constructor
    · intro a s s' ha hi hs
      have hk := quiet_keeps hs ha
      exact ⟨hi.1.next hs, hk.1.trans hi.2.1, hk.2.trans hi.2.2⟩
    · exact fun a s s' ha _ hs => weight_le hs ha
    · exact fun a s s' ha _ hs => weight_lt hs ha
    · intro a ha
      cases a with
      | deliver | work => rfl
      | playbackPost | dashGet | downloadGet => cases ha
  obtain ⟨hi, hle⟩ := hw.run ⟨h, rfl, rfl⟩ hrun hc
  refine ⟨hle, ⟨fun hs => hs.atRest hi.1, fun hs => hs.stuck⟩, ?_⟩
  obtain ⟨newer, d'', hr, hall, hend, hi'⟩ := hw.carry_on hrun hi
  have hstuck : Stuck cfg d'' := hend
  exact ⟨newer, d'', hr, hall, hstuck.atRest hi'.1, hi'.2⟩

/-- A POST and a download, both just accepted. -/
theorem comes_to_rest_accepted :
    ∃ h : ((system Sample.config).replay (start Sample.packaged)
        [Sample.post, Sample.download]).isSome = true,
      let d := (((system Sample.config).replay (start Sample.packaged)
        [Sample.post, Sample.download]).get h).2
      d.weight = 12 ∧ (Stuck Sample.config d ↔ AtRest d) ∧
        ∃ newer d'', (system Sample.config).Run d (newer ++ []) d'' ∧
        (∀ t ∈ newer, t.action.settles = true) ∧
        AtRest d'' ∧ d''.accepted = d.accepted ∧ d''.acked = d.acked :=
  ⟨by decide, by decide,
    (comes_to_rest (System.run_get _).reachable .nil (List.forall_mem_nil _)).2⟩

end Daemon

end VisionPlayback
