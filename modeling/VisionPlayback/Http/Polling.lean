import VisionPlayback.Http.Mirror

/-!
# What a poll answers after a POST

The answer to a POST is written before the processor has seen the request, and
the table that a poll reads has an entry only once a status message has come
back.
-/

namespace VisionPlayback

open Lib Lib.Replica StreamCache

namespace Machine

variable {cfg : Config} {env : Env} {m m' : Machine} {V : String → Option StreamStatus}

theorem mem_told {keyHex : String} {status : StreamStatus} (h : (keyHex, status) ∈ m.told) :
    ∃ url, .emit (.statusChanged keyHex status url) ∈ m.calls := by
  obtain ⟨s, hs, he⟩ := List.mem_filterMap.mp h
  obtain ⟨c, hc, hce⟩ := List.mem_filterMap.mp hs
  cases c with
  | emit s' =>
    obtain rfl := Option.some.inj hce
    cases s' with
    | statusChanged keyHex' status' url =>
      obtain ⟨rfl, rfl⟩ := Prod.mk.inj (Option.some.inj he)
      exact ⟨url, hc⟩
    | exportFinished requestId outputPath ok error => cases he
  | auth | emplaceJob | startDownload | package | exportClip | removed => cases hce

/-- The processor has no status for a key it has no record of. -/
theorem told_ne_unknown {a : Action} (h : Machine.step cfg a m = some m') {keyHex : String}
    {status : StreamStatus} (ht : (keyHex, status) ∈ m'.told) : status ≠ .unknown := by
  obtain ⟨url, hc⟩ := mem_told ht
  obtain ⟨env, e, q, -, -, -, hcalled⟩ := called_of_step h hc
  cases hcalled with
  | readyNow => decide
  | packaged => decide
  | status hs =>
    rintro rfl
    exact absurd hs (by decide)

/-- Once the slot of a request has run, the listener will have heard of its key. -/
theorem hear_of_requested {r : PlaybackRequest} (hi : Mirrors V m)
    (h : Requested cfg env r m m') : hear m'.told V r.key.hex ≠ none := by
  cases h with
  | ready hdash =>
    refine hear_ne_none (Or.inr ⟨.ready, ?_⟩)
    rw [told_statusChanged]
    exact List.mem_append_right _ List.mem_cons_self
  | active hdash hjob =>
    refine hear_ne_none (Or.inl ?_)
    obtain ⟨job, hj⟩ := Table.mem_iff_lookup.mp hjob
    have hshow := hi.shows_ r.key
    rw [hj] at hshow
    cases hv : V r.key.hex with
    | none => rw [hv] at hshow; cases hshow
    | some status => nofun
  | refused =>
    refine hear_ne_none (Or.inr ⟨.failed, ?_⟩)
    rw [told_statusChanged]
    exact List.mem_append_right _ List.mem_cons_self
  | shortcut =>
    refine hear_ne_none (Or.inr ⟨.packaging, ?_⟩)
    rw [told_launchPackager]
    exact List.mem_append_right _ List.mem_cons_self
  | download =>
    refine hear_ne_none (Or.inr ⟨.downloading, ?_⟩)
    rw [told_launchDownloader]
    exact List.mem_append_right _ List.mem_cons_self

/-- A queued request stays queued until the listener is bound to hear of its key. -/
theorem Mirrors.queued {b : Action} {r : PlaybackRequest} (hi : Mirrors V m) (hb : b ≠ .restart)
    (hs : Machine.step cfg b m = some m') (hr : .playbackRequested r ∈ m.queue) :
    .playbackRequested r ∈ m'.queue ∨ hear m'.told V r.key.hex ≠ none := by
  cases stepped hs with
  | @handle env e q m' hq hclock hd =>
    rw [hq] at hr
    rcases List.mem_cons.mp hr with rfl | hr
    · cases hd with
      | playbackRequested hreq =>
        have hi' : Mirrors V (m.popped env q) := hi.frame rfl fun _ _ _ _ h => h
        exact Or.inr (hear_of_requested hi' hreq)
    · apply Or.inl
      rw [hd.queue_eq]
      exact hr
  | post | access | requestExport | downloadExit | packageExit | exportExit =>
    exact Or.inl (List.mem_append_left _ hr)
  | dropExport | downloadWrite | packageWrite | exportWrite => exact Or.inl hr
  | restart => exact absurd rfl hb

end Machine

namespace Daemon

variable {cfg : DaemonConfig} {d d' : Daemon}

/-- A request for the key is still in the processor's queue. -/
def Queued (d : Daemon) (id : String) : Prop :=
  ∃ r, .playbackRequested r ∈ d.machine.queue ∧ r.key.hex = id

structure Polled (d : Daemon) : Prop where
  heard : ∀ id, id ∈ d.heard ↔ id ∈ d.listener.statusCache
  cached : ∀ id, d.listener.statusCache.lookup id ≠ some .unknown
  sent : ∀ u ∈ statuses d.toHttp, u.2 ≠ .unknown
  acked : ∀ id ∈ d.acked, id ≠ "" ∧ (d.Queued id ∨ d.view id ≠ none)

theorem Polled.start (disk : Disk) : Polled (start disk) where
  heard id := by simp [Daemon.start]
  cached id := by simp [Daemon.start]
  sent u hu := by cases hu
  acked id hid := by cases hid

/-- An acknowledged id keeps its request queued, or its status known or on its way. -/
theorem Polled.acked_step {a : Action} {id : String} (hi : Machine.Mirrors d.view d.machine)
    (h : step cfg a d = some d') (hid : d.Queued id ∨ d.view id ≠ none) :
    d'.Queued id ∨ d'.view id ≠ none := by
  rcases view_step h with ⟨hm, hv⟩ | ⟨b, hb, hs, hv⟩
  · unfold Queued
    rw [hm, hv]
    exact hid
  · rw [hv]
    rcases hid with ⟨r, hr, rfl⟩ | hid
    · exact (hi.queued hb hs hr).imp_left fun hr => ⟨r, hr, rfl⟩
    · exact Or.inr (hear_ne_none (Or.inl hid))

theorem Polled.step {a : Action} (hp : Polled d) (hi : Machine.Mirrors d.view d.machine)
    (h : step cfg a d = some d') : Polled d' := by
  have hold : ∀ id ∈ d.acked, id ≠ "" ∧ (d'.Queued id ∨ d'.view id ≠ none) :=
    fun id hid => ⟨(hp.acked id hid).1, acked_step hi h (hp.acked id hid).2⟩
  cases stepped h with
  | postRejected | downloadRejected => exact hp
  | @posted _ _ request machine hpost hs =>
    refine ⟨hp.heard, hp.cached, hp.sent, fun id hid => ?_⟩
    rcases List.mem_cons.mp hid with rfl | hid
    · cases Machine.stepped hs with
      | post hhex =>
        refine ⟨?_, Or.inl ⟨request, List.mem_append_right _ List.mem_cons_self, rfl⟩⟩
        intro he
        rw [he] at hhex
        exact absurd hhex (by decide)
    · exact hold id hid
  | dashGet hs => exact ⟨hp.heard, hp.cached, hp.sent, hold⟩
  | accepted hcheck hs => exact ⟨hp.heard, hp.cached, hp.sent, hold⟩
  | @heard keyHex url status q hq =>
    have hsent : ∀ u ∈ (keyHex, status) :: statuses q, u.2 ≠ .unknown := by
      have h := hp.sent
      rw [hq] at h
      exact h
    refine ⟨fun id => ?_, fun id => ?_, fun u hu => hsent u (List.mem_cons_of_mem _ hu), hold⟩
    · rw [List.mem_cons, hp.heard id]
      exact (AList.mem_insert _).symm
    · simp only [Listener.onStatusChanged, Table.lookup_insert_eq]
      split
      · intro he
        exact hsent _ List.mem_cons_self (Option.some.inj he)
      · exact hp.cached id
  | unmatched hq hm =>
    refine ⟨hp.heard, hp.cached, fun u hu => hp.sent u ?_, hold⟩
    rw [hq]
    exact hu
  | answered hq hp' hm =>
    refine ⟨hp.heard, hp.cached, fun u hu => hp.sent u ?_, hold⟩
    rw [hq]
    exact hu
  | @worked b machine hb hs =>
    refine ⟨hp.heard, hp.cached, fun u hu => ?_, hold⟩
    rw [statuses_append] at hu
    rcases List.mem_append.mp hu with hu | hu
    · exact hp.sent u hu
    · exact Machine.told_ne_unknown hs hu

theorem polled {disk : Disk} (h : (system cfg).Reachable (start disk) d) : Polled d :=
  h.induct (.start disk) fun _ _ _ hr hp hs => hp.step (mirrors hr) hs

theorem status_handlePlaybackGet (id : String) (l : Listener) (hid : id ≠ "") :
    (Listener.handlePlaybackGet id l).status =
      match (l.statusCache.lookup id).getD .unknown with
      | .ready => 200
      | .unknown => 404
      | .pending | .downloading | .packaging | .failed => 202 := by
  unfold Listener.handlePlaybackGet
  rw [if_neg hid]
  cases (l.statusCache.lookup id).getD .unknown <;> rfl

/-- A poll for an acknowledged id is answered as a known one exactly when a status
of the id has been delivered; until then the request is still queued, or its
status is on its way. -/
theorem poll_known_iff {disk : Disk} (h : (system cfg).Reachable (start disk) d) {id : String}
    (hid : id ∈ d.acked) :
    ((Listener.handlePlaybackGet id d.listener).status = 200 ∨
        (Listener.handlePlaybackGet id d.listener).status = 202 ↔ id ∈ d.heard) ∧
      (id ∉ d.heard → (Listener.handlePlaybackGet id d.listener).status = 404 ∧
        (d.Queued id ∨ ∃ status, (id, status) ∈ statuses d.toHttp)) := by
  have hp := polled h
  obtain ⟨hne, hwait⟩ := hp.acked id hid
  rw [status_handlePlaybackGet id d.listener hne, hp.heard id]
  by_cases hmem : id ∈ d.listener.statusCache
  · obtain ⟨status, hs⟩ := Table.mem_iff_lookup.mp hmem
    have hknown := hp.cached id
    rw [hs] at hknown ⊢
    refine ⟨⟨fun _ => hmem, fun _ => ?_⟩, fun hno => absurd hmem hno⟩
    cases status with
    | unknown => exact absurd rfl hknown
    | ready | pending | downloading | packaging | failed => simp
  · rw [AList.lookup_eq_none.mpr hmem]
    refine ⟨⟨fun hcode => ?_, fun hno => absurd hno hmem⟩, fun _ => ⟨rfl, ?_⟩⟩
    · rcases hcode with hcode | hcode
      · exact absurd hcode (by decide)
      · exact absurd hcode (by decide)
    · refine hwait.imp_right fun hv => ?_
      obtain ⟨status, hs⟩ := Option.ne_none_iff_exists'.mp hv
      rw [view_eq] at hs
      rcases mem_or_of_hear hs with hs | hs
      · exact absurd (Table.mem_iff_lookup.mpr ⟨status, hs⟩) hmem
      · exact ⟨status, hs⟩

/-- Before the first slot has run, and when its status has been delivered. -/
theorem poll_known_iff_heard :
    (∃ h : ((system Sample.config).replay (start {}) [Sample.post]).isSome = true,
      let d := (((system Sample.config).replay (start {}) [Sample.post]).get h).2
      (Listener.handlePlaybackGet "00000000000000aa" d.listener).status = 404 ∧
        (d.Queued "00000000000000aa" ∨
          ∃ status, ("00000000000000aa", status) ∈ statuses d.toHttp)) ∧
    ∃ h : ((system Sample.config).replay (start {})
        [Sample.post, .work (.handle Machine.Sample.env), .deliver]).isSome = true,
      (Listener.handlePlaybackGet "00000000000000aa" (((system Sample.config).replay (start {})
        [Sample.post, .work (.handle Machine.Sample.env), .deliver]).get h).2.listener).status = 200 ∨
      (Listener.handlePlaybackGet "00000000000000aa" (((system Sample.config).replay (start {})
        [Sample.post, .work (.handle Machine.Sample.env), .deliver]).get h).2.listener).status = 202 :=
  ⟨⟨by decide, (poll_known_iff (System.run_get _).reachable (by decide)).2 (by decide)⟩,
    by decide, (poll_known_iff (System.run_get _).reachable (by decide)).1.mpr (by decide)⟩

/-- A poll that comes right after the POST was answered. -/
theorem not_poll_known : ¬ ∀ (cfg : DaemonConfig) (disk : Disk) (d : Daemon),
    (system cfg).Reachable (start disk) d → ∀ id ∈ d.acked,
      (Listener.handlePlaybackGet id d.listener).status = 200 ∨
        (Listener.handlePlaybackGet id d.listener).status = 202 := by
  intro hall
  have hsome : ((system Sample.config).replay (start {}) [Sample.post]).isSome = true := by decide
  have h := hall _ _ _ (System.run_get hsome).reachable "00000000000000aa" (by decide +revert)
  exact absurd h (by decide +revert)

end Daemon

end VisionPlayback
