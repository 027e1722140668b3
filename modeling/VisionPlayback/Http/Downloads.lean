import VisionPlayback.Http.Tickets
import VisionPlayback.Lib.Decimal

/-!
# Downloads are answered once, with their own clip

The ids of downloads are counted in 64 bits. As long as the counter has not gone
round, an id names one download for good: in the tables of both threads, in the
path of the temporary file, and in the response.
-/

namespace VisionPlayback

open Lib Lib.Ledger StreamCache

namespace Machine

variable {cfg : Config} {m m' : Machine}

theorem exportPath_inj {n k : Nat} (h : exportPath n = exportPath k) : n = k := by
  simp only [exportPath, String.append_left_inj, String.append_right_inj] at h
  exact Decimal.toString_inj h

/-- Every exporter, and every file below `.exports`, goes back to an export that was
asked for. -/
structure Traced (asked : ClipExport → Prop) (m : Machine) : Prop where
  requests : ∀ id hex startSec endSec, .exportRequested id hex startSec endSec ∈ m.queue →
    asked (clipExport id hex startSec endSec)
  exporters : ∀ w ∈ m.exporters, asked w
  files : ∀ path f, m.disk.exports.lookup path = some f →
    asked f.writer ∧ f.writer.outputPath = path
  done : ∀ id path err, .exportDone id true path err ∈ m.queue → path = exportPath id

variable {asked asked' : ClipExport → Prop}

theorem Traced.mono (hi : Traced asked m) (h : ∀ w, asked w → asked' w) : Traced asked' m where
  requests id hex startSec endSec he := h _ (hi.requests id hex startSec endSec he)
  exporters w hw := h w (hi.exporters w hw)
  files path f hf := ⟨h _ (hi.files path f hf).1, (hi.files path f hf).2⟩
  done := hi.done

/-- No slot touches the files below `.exports`. -/
theorem Dispatched.exports_eq {env : Env} {e : Event} (h : Dispatched cfg env m m' e) :
    m'.disk.exports = m.disk.exports := by
  cases h with
  | playbackRequested hs =>
    cases hs with
    | ready | active | refused | download => rfl
    | shortcut => exact mkpath_exports _ _ _
  | keyAccessed hs => rw [hs]; rfl
  | exportRequested hs => cases hs <;> rfl
  | downloadFinished hs =>
    cases hs with
    | ignored | failed => rfl
    | packaging => exact mkpath_exports _ _ _
  | packageFinished hs =>
    cases hs with
    | ignored | failed => rfl
    | ready => exact evictToCapacity_raw.2
  | exportDone hs => cases hs <;> rfl

theorem Traced.dispatched {env : Env} {e : Event} {q : List Event} (hi : Traced asked m)
    (hq : m.queue = e :: q) (h : Dispatched cfg env (m.popped env q) m' e) : Traced asked m' := by
  have hqueue : ∀ e' ∈ m'.queue, e' ∈ m.queue := by
    intro e' he
    rw [h.queue_eq] at he
    rw [hq]
    exact List.mem_cons_of_mem _ he
  have hrun : ∀ w ∈ m'.exporters, w ∈ m.exporters ∨ ∃ id hex startSec endSec,
      e = .exportRequested id hex startSec endSec ∧ w = clipExport id hex startSec endSec := by
    intro w hw
    cases h with
    | playbackRequested hs => cases hs <;> exact Or.inl hw
    | keyAccessed hs => rw [hs] at hw; exact Or.inl hw
    | @exportRequested id hex startSec endSec hs =>
      cases hs with
      | notReady hdash => exact Or.inl hw
      | started hdash =>
        rcases List.mem_append.mp hw with hw | hw
        · exact Or.inl hw
        · exact Or.inr ⟨id, hex, startSec, endSec, rfl, List.mem_singleton.mp hw⟩
    | downloadFinished hs => cases hs <;> exact Or.inl hw
    | packageFinished hs => cases hs <;> exact Or.inl hw
    | exportDone hs => cases hs <;> exact Or.inl hw
  constructor
  · exact fun id hex startSec endSec he => hi.requests id hex startSec endSec (hqueue _ he)
  · intro w hw
    rcases hrun w hw with hw | ⟨id, hex, startSec, endSec, rfl, rfl⟩
    · exact hi.exporters w hw
    · exact hi.requests id hex startSec endSec (hq ▸ List.mem_cons_self)
  · rw [h.exports_eq]
    exact hi.files
  · exact fun id path err he => hi.done id path err (hqueue _ he)

theorem Traced.step {a : Action} (hi : Traced asked m)
    (hpath : ∀ w, asked w → w.outputPath = exportPath w.requestId) (hr : a ≠ .restart)
    (h : Machine.step cfg a m = some m')
    (hreq : ∀ id hex startSec endSec, a = .requestExport id hex startSec endSec →
      asked (clipExport id hex startSec endSec)) : Traced asked m' := by
  cases stepped h with
  | handle hq hclock hs => exact hi.dispatched hq hs
  | post | access | downloadExit | packageExit =>
    exact ⟨fun id hex startSec endSec he => hi.requests id hex startSec endSec
        (mem_of_enqueue he nofun), hi.exporters, hi.files,
      fun id path err he => hi.done id path err (mem_of_enqueue he nofun)⟩
  | @requestExport id hex startSec endSec =>
    refine ⟨fun id' hex' startSec' endSec' he => ?_, hi.exporters, hi.files,
      fun id path err he => hi.done id path err (mem_of_enqueue he nofun)⟩
    rcases List.mem_append.mp he with he | he
    · exact hi.requests id' hex' startSec' endSec' he
    · have heq := List.mem_singleton.mp he
      simp only [Event.exportRequested.injEq] at heq
      obtain ⟨rfl, rfl, rfl, rfl⟩ := heq
      exact hreq _ _ _ _ rfl
  | @dropExport path =>
    refine ⟨hi.requests, hi.exporters, fun path' f hf => ?_, hi.done⟩
    rw [Table.lookup_erase_eq] at hf
    split at hf
    · cases hf
    · exact hi.files path' f hf
  | downloadWrite | packageWrite => exact ⟨hi.requests, hi.exporters, hi.files, hi.done⟩
  | @exportWrite w f hw =>
    refine ⟨hi.requests, hi.exporters, fun path f' hf => ?_, hi.done⟩
    rw [Table.lookup_insert_eq] at hf
    split at hf
    · next he =>
      obtain rfl := Option.some.inj hf
      exact ⟨hi.exporters w hw, he.symm⟩
    · exact hi.files path f' hf
  | @exportExit w ok err hw =>
    refine ⟨fun id hex startSec endSec he => hi.requests id hex startSec endSec
        (mem_of_enqueue he nofun),
      fun w' hw' => hi.exporters w' (List.mem_of_mem_erase hw'), hi.files,
      fun id path err' he => ?_⟩
    rcases List.mem_append.mp he with he | he
    · exact hi.done id path err' he
    · have heq := List.mem_singleton.mp he
      simp only [Event.exportDone.injEq] at heq
      obtain ⟨rfl, rfl, rfl, -⟩ := heq
      rw [if_pos rfl]
      exact hpath w (hi.exporters w hw)
  | restart => exact absurd rfl hr

/-- A success that is told comes with the path of its id. -/
theorem Traced.emits {a : Action} (hi : Traced asked m) (h : Machine.step cfg a m = some m')
    {id : Nat} {path err : String} (he : .exportFinished id path true err ∈ m'.emits) :
    path = exportPath id := by
  obtain ⟨env, e, q, rfl, hq, -, hcalled⟩ := called_of_step h (mem_emits.mp he)
  cases hcalled with
  | exportFinished => exact hi.done id path err (hq ▸ List.mem_cons_self)

end Machine

/-- The clip an accepted download asks for. -/
def Accepted.clip (a : Accepted) : ClipExport :=
  Machine.clipExport a.requestId a.request.hash a.request.startSec a.request.endSec

namespace Listener

/-- Only a clip that could be read makes a response with code 200. -/
theorem of_exportResponse {outputPath error filename : String} {ok : Bool} {disk : Disk}
    (h : (exportResponse outputPath ok error filename disk).status = 200) :
    ok = true ∧ ∃ f, disk.exports.lookup outputPath = some f ∧
      (exportResponse outputPath ok error filename disk).body = .bytes f.file.content := by
  have hbad : ∀ n message, n ≠ 200 → (json n (serializeError message)).status ≠ 200 :=
    fun n message hn => hn
  unfold exportResponse at h ⊢
  split at h
  · refine absurd h (hbad _ _ ?_)
    split <;> decide
  · next hok =>
    have htrue : ok = true := by simpa using hok
    rw [if_neg hok]
    split at h
    · exact absurd h (hbad _ _ (by decide))
    · next f hf =>
      split at h
      · exact absurd h (hbad _ _ (by decide))
      · next hread =>
        refine ⟨htrue, f, hf, ?_⟩
        simp only [if_neg hread]

end Listener

namespace Daemon

variable {cfg : DaemonConfig} {d d' : Daemon}

/-! ## Ids -/

/-- The ids of the first `n` accepted downloads, newest first. -/
def issuedIds : Nat → List Nat
  | 0 => []
  | n + 1 => (n + 1) % 2 ^ 64 :: issuedIds n

theorem mem_issuedIds {n id : Nat} (h : id ∈ issuedIds n) : ∃ i, 0 < i ∧ i ≤ n ∧ id = i % 2 ^ 64 := by
  induction n with
  | zero => cases h
  | succ n ih =>
    rcases List.mem_cons.mp h with rfl | h
    · exact ⟨n + 1, by omega, by omega, rfl⟩
    · obtain ⟨i, hpos, hle, he⟩ := ih h
      exact ⟨i, hpos, by omega, he⟩

/-- The counter does not come back to an id before it has gone round. -/
theorem nodup_issuedIds {n : Nat} (h : n ≤ 2 ^ 64) : (issuedIds n).Nodup := by
  induction n with
  | zero => exact List.nodup_nil
  | succ n ih =>
    refine List.nodup_cons.mpr ⟨fun hmem => ?_, ih (by omega)⟩
    obtain ⟨i, hpos, hle, he⟩ := mem_issuedIds hmem
    omega

structure Counted (d : Daemon) : Prop where
  next : d.listener.nextExportId.toNat = d.accepted.length % 2 ^ 64
  ids : d.accepted.map (·.requestId) = issuedIds d.accepted.length

theorem Counted.freshExportId (hi : Counted d) :
    d.listener.freshExportId = (d.accepted.length + 1) % 2 ^ 64 := by
  rw [Listener.freshExportId, UInt64.toNat_add, hi.next]
  show (d.accepted.length % 2 ^ 64 + 1) % 2 ^ 64 = _
  omega

theorem Counted.step {a : Action} (hi : Counted d) (h : step cfg a d = some d') : Counted d' := by
  cases stepped h with
  | postRejected | downloadRejected => exact hi
  | posted | dashGet | heard | unmatched | answered | worked => exact ⟨hi.next, hi.ids⟩
  | accepted hcheck hs =>
    constructor
    · exact hi.freshExportId
    · rw [List.map_cons, List.length_cons, issuedIds, hi.freshExportId, hi.ids]

/-! ## Clips -/

/-- The file a response carries is the clip of the download that it answers. -/
def AnswersOwn (d : Daemon) (r : Reply) : Prop :=
  ∃ a ∈ d.accepted, a.responder = r.responder ∧ r.path = Machine.exportPath a.requestId ∧
    ∃ f, r.source = some f ∧ f.writer = a.clip ∧ r.response.body = .bytes f.file.content

structure Delivered (d : Daemon) : Prop where
  traced : Machine.Traced (fun w => ∃ a ∈ d.accepted, w = a.clip) d.machine
  paths : ∀ id path err, .exportFinished id path true err ∈ d.toHttp →
    path = Machine.exportPath id
  served : ∀ r ∈ d.replies, r.response.status = 200 → AnswersOwn d r

theorem Delivered.start (disk : Disk) : Delivered (start disk) where
  traced := ⟨fun _ _ _ _ h => (by cases h), fun _ h => (by cases h), fun _ _ h => (by cases h),
    fun _ _ _ h => (by cases h)⟩
  paths _ _ _ h := by cases h
  served _ h := by cases h

theorem clip_outputPath {l : List Accepted} (w : ClipExport) (h : ∃ a ∈ l, w = a.clip) :
    w.outputPath = Machine.exportPath w.requestId := by
  obtain ⟨a, -, rfl⟩ := h
  rfl

/-- A step of the processor's world that is no request for an export. -/
theorem Delivered.machine {b : Machine.Action} {machine : Machine} (hi : Delivered d)
    (hs : Machine.step cfg.processor b d.machine = some machine) (hr : b ≠ .restart)
    (hreq : b.requestId? = none) :
    Machine.Traced (fun w => ∃ a ∈ d.accepted, w = a.clip) machine := by
  refine hi.traced.step clip_outputPath hr hs fun id hex startSec endSec he => ?_
  rw [he] at hreq
  cases hreq

theorem Delivered.accepted {request : ExportRequest} {machine : Machine} {id n : Nat}
    {listener : Listener} (hi : Delivered d)
    (hs : Machine.step cfg.processor (.requestExport id request.hash request.startSec
      request.endSec) d.machine = some machine) :
    Delivered { d with
      machine, listener, nextResponder := n + 1, accepted := ⟨n, id, request⟩ :: d.accepted } := by
  have hmono : ∀ w, (∃ a ∈ d.accepted, w = a.clip) →
      ∃ a ∈ (⟨n, id, request⟩ : Accepted) :: d.accepted, w = a.clip :=
    fun w ⟨a, ha, hw⟩ => ⟨a, List.mem_cons_of_mem _ ha, hw⟩
  constructor
  · have hr : Machine.Action.requestExport id request.hash request.startSec request.endSec ≠
        .restart := nofun
    apply (hi.traced.mono hmono).step clip_outputPath hr hs
    intro id' hex startSec endSec he
    simp only [Machine.Action.requestExport.injEq] at he
    obtain ⟨rfl, rfl, rfl, rfl⟩ := he
    exact ⟨_, List.mem_cons_self, rfl⟩
  · exact hi.paths
  · intro r hr hok
    obtain ⟨a, ha, hown⟩ := hi.served r hr hok
    exact ⟨a, List.mem_cons_of_mem _ ha, hown⟩

/-- The file found at the path of an id was written for the download of that id. -/
theorem Delivered.answered {requestId : Nat} {outputPath error : String} {ok : Bool}
    {p : PendingExport} (hi : Delivered d) (hd : Deferred d)
    (hids : (d.accepted.map (·.requestId)).Nodup)
    (hq : .exportFinished requestId outputPath ok error ∈ d.toHttp)
    (hp : d.listener.pendingExports.lookup requestId = some p)
    (hok : (Listener.exportResponse outputPath ok error p.filename d.machine.disk).status = 200) :
    AnswersOwn d ⟨p.responder,
      Listener.exportResponse outputPath ok error p.filename d.machine.disk, outputPath,
      d.machine.disk.exports.lookup outputPath⟩ := by
  obtain ⟨rfl, f, hf, hbody⟩ := Listener.of_exportResponse hok
  obtain ⟨a, ha, hid, hresp⟩ := hd.owner requestId p hp
  have hpath : outputPath = Machine.exportPath requestId := hi.paths _ _ _ hq
  obtain ⟨⟨a', ha', hclip⟩, hout⟩ := hi.traced.files outputPath f hf
  have hsame : a'.requestId = a.requestId := by
    rw [hclip, hpath] at hout
    rw [hid]
    exact Machine.exportPath_inj hout
  obtain rfl : a' = a := List.inj_on_of_nodup_map hids ha' ha hsame
  exact ⟨a', ha, hresp, by rw [hpath, hid], f, hf, hclip, hbody⟩

theorem Delivered.step {a : Action} (hi : Delivered d) (hd : Deferred d)
    (hids : (d.accepted.map (·.requestId)).Nodup) (h : step cfg a d = some d') :
    Delivered d' := by
  cases stepped h with
  | postRejected | downloadRejected => exact hi
  | posted hpost hs => exact ⟨hi.machine hs nofun rfl, hi.paths, hi.served⟩
  | dashGet hs => exact ⟨hi.machine hs nofun rfl, hi.paths, hi.served⟩
  | accepted hcheck hs => exact hi.accepted hs
  | heard hq | unmatched hq =>
    refine ⟨hi.traced, fun id path err he => hi.paths id path err ?_, hi.served⟩
    rw [hq]
    exact List.mem_cons_of_mem _ he
  | @answered requestId outputPath error ok q p machine hq hp hm =>
    refine ⟨?_, fun id path err he => hi.paths id path err ?_, fun r hr hok => ?_⟩
    · rcases step_of_dropExport hm with rfl | ⟨path, hs⟩
      · exact hi.traced
      · exact hi.machine hs nofun rfl
    · rw [hq]
      exact List.mem_cons_of_mem _ he
    · rcases List.mem_cons.mp hr with rfl | hr
      · exact hi.answered hd hids (hq ▸ List.mem_cons_self) hp hok
      · exact hi.served r hr hok
  | @worked b machine hb hs =>
    have hreq : b.requestId? = none := by
      cases b with
      | requestExport => cases hb
      | post | access | dropExport | handle | downloadWrite | downloadExit | packageWrite
      | packageExit | exportWrite | exportExit | restart => rfl
    have hr : b ≠ .restart := by
      rintro rfl
      cases hb
    refine ⟨hi.machine hs hr hreq, fun id path err he => ?_, hi.served⟩
    rcases List.mem_append.mp he with he | he
    · exact hi.paths id path err he
    · exact hi.traced.emits hs he

/-! ## The law of downloads -/

/-- The responder of a download is still kept under its id. -/
def Waiting (d : Daemon) (a : Accepted) : Prop :=
  (d.listener.pendingExports.lookup a.requestId).map (·.responder) = some a.responder

instance (d : Daemon) (a : Accepted) : Decidable (d.Waiting a) := by
  unfold Waiting
  infer_instance

structure DownloadsKept (d : Daemon) : Prop where
  /-- A pending export is in exactly one place on its way, and nothing else is on a way. -/
  tokens : ∀ id, d.exportTokens.count id = if id ∈ d.listener.pendingExports then 1 else 0
  /-- The exporter of an entry runs, or its completion is queued. -/
  exporters : ∀ id, d.machine.exporterIds.count id = if id ∈ d.machine.exports then 1 else 0
  distinct : (d.accepted.map (·.responder)).Nodup
  /-- A download waits for its answer, or has been answered once. -/
  answered : ∀ a ∈ d.accepted,
    (d.replies.map (·.responder)).count a.responder = if d.Waiting a then 0 else 1
  /-- Only downloads are answered. -/
  known : ∀ r ∈ d.replies, ∃ a ∈ d.accepted, a.responder = r.responder
  own : ∀ r ∈ d.replies, r.response.status = 200 → AnswersOwn d r

theorem Deferred.waiting_iff (hi : Deferred d) {a : Accepted} (ha : a ∈ d.accepted) :
    d.Waiting a ↔ a.responder ∈ d.listener.pendingExports.values.map (·.responder) := by
  rw [List.mem_map]
  constructor
  · intro h
    obtain ⟨p, hp, he⟩ := Option.map_eq_some_iff.mp h
    exact ⟨p, Table.mem_values.mpr ⟨_, hp⟩, he⟩
  · intro ⟨p, hp, he⟩
    obtain ⟨id, hlookup⟩ := Table.mem_values.mp hp
    obtain ⟨a', ha', hid, hresp⟩ := hi.owner id p hlookup
    obtain rfl : a' = a := List.inj_on_of_nodup_map hi.distinct ha' ha (hresp.trans he)
    exact Option.map_eq_some_iff.mpr ⟨p, by rw [hid]; exact hlookup, he⟩

theorem Deferred.answered_iff (hi : Deferred d) {a : Accepted} (ha : a ∈ d.accepted) :
    (d.replies.map (·.responder)).count a.responder = if d.Waiting a then 0 else 1 := by
  have hone : (d.accepted.map (·.responder)).count a.responder = 1 :=
    List.count_eq_one_of_mem hi.distinct (List.mem_map.mpr ⟨a, ha, rfl⟩)
  rw [hi.answers.count_eq, List.count_append] at hone
  by_cases hw : d.Waiting a
  · have hpos := List.count_pos_iff.mpr ((hi.waiting_iff ha).mp hw)
    rw [if_pos hw]
    omega
  · have hzero := List.count_eq_zero_of_not_mem (mt (hi.waiting_iff ha).mpr hw)
    rw [if_neg hw]
    omega

theorem Delivered.kept (hi : Delivered d) (hd : Deferred d) : DownloadsKept d where
  tokens := hd.tokens.count_eq
  exporters := hd.exporters.count_eq
  distinct := hd.distinct
  answered a ha := hd.answered_iff ha
  known r hr := by
    have hmem : r.responder ∈ d.accepted.map (·.responder) :=
      hd.answers.mem_iff.mpr (List.mem_append_right _ (List.mem_map.mpr ⟨r, hr, rfl⟩))
    exact List.mem_map.mp hmem
  own := hi.served

/-- Accepted downloads are never forgotten. -/
theorem accepted_suffix {a : Action} (h : step cfg a d = some d') : d.accepted <:+ d'.accepted := by
  cases stepped h with
  | accepted => exact List.suffix_cons _ _
  | postRejected | posted | dashGet | downloadRejected | heard | unmatched | answered | worked =>
    exact List.suffix_refl _

/-- The books balance, and answers carry their own clips, while no id is used twice. -/
theorem books {disk : Disk} (h : (system cfg).Reachable (start disk) d) : Counted d ∧
    ((d.accepted.map (·.requestId)).Nodup → Deferred d ∧ Delivered d) := by
  refine h.invariant (I := fun d => Counted d ∧
    ((d.accepted.map (·.requestId)).Nodup → Deferred d ∧ Delivered d)) ?_ ?_
  · exact ⟨⟨rfl, rfl⟩, fun _ => ⟨.start disk, .start disk⟩⟩
  · intro a d d' ⟨hc, hi⟩ hs
    refine ⟨hc.step hs, fun hids => ?_⟩
    have hold : (d.accepted.map (·.requestId)).Nodup :=
      hids.sublist ((accepted_suffix hs).sublist.map _)
    obtain ⟨hd, hi⟩ := hi hold
    exact ⟨hd.step hs hids, hi.step hd hold hs⟩

theorem nodup_ids {disk : Disk} (h : (system cfg).Reachable (start disk) d)
    (hcount : d.accepted.length ≤ 2 ^ 64) : (d.accepted.map (·.requestId)).Nodup := by
  rw [(books h).1.ids]
  exact nodup_issuedIds hcount

/-- The law of downloads, in every run that accepts at most `2 ^ 64` of them. -/
theorem downloads_kept {disk : Disk} (h : (system cfg).Reachable (start disk) d)
    (hcount : d.accepted.length ≤ 2 ^ 64) : DownloadsKept d := by
  obtain ⟨hd, hi⟩ := (books h).2 (nodup_ids h hcount)
  exact hi.kept hd

/-- As long as the counter has not gone round, every id is fresh when it is issued. -/
theorem issuesFresh {disk : Disk} {tr : List (Transition Daemon Action)}
    (h : (system cfg).Run (start disk) tr d) (hcount : d.accepted.length ≤ 2 ^ 64) :
    ∀ t ∈ tr, IssuesFresh t.action t.pre := by
  induction h with
  | nil => exact fun _ ht => nomatch ht
  | @next tr d d' a hr hs ih =>
    have hlen : d.accepted.length ≤ d'.accepted.length := (accepted_suffix hs).length_le
    have hids : (d'.accepted.map (·.requestId)).Nodup := nodup_ids (hr.reachable.next hs) hcount
    have hold := hids.sublist ((accepted_suffix hs).sublist.map _)
    rw [List.forall_mem_cons]
    exact ⟨((books hr.reachable).2 hold).1.issuesFresh hs hids, ih (by omega)⟩

namespace Sample

def packaged : Disk where
  dirs := AList.insert "00000000000000aa" (Machine.Sample.package 0) ∅

def download : Action := .downloadGet "00000000000000aa" .absent .absent

def clip : ClipExport := Machine.clipExport 1 "00000000000000aa" (-1) (-1)

/-- Two downloads of one package; the first is answered while the second is exported. -/
def downloads : List Action :=
  [download, download, .work (.handle Machine.Sample.env), .work (.handle Machine.Sample.env),
    .work (.exportWrite clip Machine.Sample.manifest), .work (.exportExit clip true ""),
    .work (.handle Machine.Sample.env), .deliver]

end Sample

theorem downloads_kept_answered :
    ∃ h : ((system Sample.config).replay (start Sample.packaged) Sample.downloads).isSome = true,
      let d := (((system Sample.config).replay (start Sample.packaged) Sample.downloads).get h).2
      d.replies.map (·.response.status) = [200] ∧ d.exportTokens = [2] ∧ DownloadsKept d :=
  ⟨by decide, by decide, by decide, downloads_kept (System.run_get _).reachable (by decide)⟩

/-- Any number of downloads may be accepted before the processor sees the first. -/
theorem many_downloads (cfg : DaemonConfig) (n : Nat) : ∃ d, (system cfg).Reachable (start {}) d ∧
    d.accepted.length = n ∧ d.replies = [] ∧ ∀ id ∈ d.listener.pendingExports, id < 2 ^ 64 := by
  induction n with
  | zero => exact ⟨start {}, .refl _, rfl, rfl, fun _ h => absurd h (AList.notMem_empty _)⟩
  | succ n ih =>
    obtain ⟨d, hr, hlen, hrep, hids⟩ := ih
    have hs : ∃ d', step cfg Sample.download d = some d' ∧
        d'.accepted.length = d.accepted.length + 1 ∧ d'.replies = d.replies ∧
        d'.listener.pendingExports =
          (Table.emplace d.listener.freshExportId
            ⟨d.nextResponder, "playback-00000000000000aa.mp4"⟩ d.listener.pendingExports).1 := by
      exact ⟨_, rfl, rfl, rfl, rfl⟩
    obtain ⟨d', hs, hlen', hrep', hpend⟩ := hs
    refine ⟨d', hr.next (a := Sample.download) hs, by rw [hlen', hlen], by rw [hrep', hrep], fun id hid => ?_⟩
    rw [hpend] at hid
    by_cases hmem : d.listener.freshExportId ∈ d.listener.pendingExports
    · rw [Table.emplace_of_mem hmem] at hid
      exact hids id hid
    · rw [Table.emplace_of_notMem hmem] at hid
      rcases (AList.mem_insert _).mp hid with rfl | hid
      · exact UInt64.toNat_lt _
      · exact hids id hid

/-- One download more than there are ids, with none of them answered yet. -/
theorem not_downloads_kept : ¬ ∀ (cfg : DaemonConfig) (disk : Disk) (d : Daemon),
    (system cfg).Reachable (start disk) d → DownloadsKept d := by
  intro hall
  obtain ⟨d, hr, hlen, hrep, hids⟩ := many_downloads Sample.config (2 ^ 64 + 1)
  have hkept := hall _ _ _ hr
  have hwait : ∀ a ∈ d.accepted, d.Waiting a := by
    intro a ha
    have hcount := hkept.answered a ha
    rw [hrep] at hcount
    by_contra hw
    rw [if_neg hw] at hcount
    cases hcount
  have hsub : d.accepted.map (·.responder) ⊆
      d.listener.pendingExports.values.map (·.responder) := by
    intro n hn
    obtain ⟨a, ha, rfl⟩ := List.mem_map.mp hn
    obtain ⟨p, hp, he⟩ := Option.map_eq_some_iff.mp (hwait a ha)
    exact List.mem_map.mpr ⟨p, Table.mem_values.mpr ⟨_, hp⟩, he⟩
  have hheld : d.accepted.length ≤ d.listener.pendingExports.keys.length := by
    have hle := (List.subperm_of_subset hkept.distinct hsub).length_le
    simpa [Table.values, AList.keys, List.keys] using hle
  have hcap : d.listener.pendingExports.keys.length ≤ 2 ^ 64 := by
    have hrange : d.listener.pendingExports.keys ⊆ List.range (2 ^ 64) :=
      fun id hid => List.mem_range.mpr (hids id (AList.mem_keys.mpr hid))
    have hle := (List.subperm_of_subset d.listener.pendingExports.keys_nodup hrange).length_le
    rwa [List.length_range] at hle
  omega

end Daemon

end VisionPlayback
