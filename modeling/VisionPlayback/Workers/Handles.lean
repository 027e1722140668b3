import VisionPlayback.Lib.Holders
import VisionPlayback.Workers.Refinement

/-!
# The download handles of the process

The download threads share one SDK. It is trusted to give no handle that it has still
open; what the threads do with their handles, in any interleaving with each other and with
the slots, is not.
-/

namespace VisionPlayback

open Lib

namespace HCNetSDKDownloader

/-- The handle that a thread has in its hands. -/
def Place.handle? : Place → Option Int32
  | .playStart hDl | .test hDl _ | .getDownloadPos hDl | .stopGetFile hDl _ => some hDl
  | .getFileByTime | .finalTest _ | .ended => none

def Thread.handle? (t : Thread) : Option Int32 := t.place.handle?

def Call.lease : Call → Option (Lease.Event Int32)
  | .getFileByTime _ _ _ hDl => if hDl < 0 then none else some (.grant hDl)
  | .stopGetFile hDl => some (.revoke hDl)
  | _ => none

/-- The handle that a call needs to be open. -/
def Call.uses? : Call → Option Int32
  | .playStart hDl _ | .getDownloadPos hDl _ | .stopGetFile hDl => some hDl
  | .getFileByTime _ _ _ _ | .onProgress _ | .onFinished _ _ => none

def handleLeases (calls : List Call) : List (Lease.Event Int32) := calls.filterMap (·.lease)

theorem handleLeases_append (calls calls' : List Call) :
    handleLeases (calls ++ calls') = handleLeases calls ++ handleLeases calls' :=
  List.filterMap_append

/-- What a step of a thread does with its handle. -/
inductive HandleStep (t t' : Thread) (a : Action) (calls : List Call) : Prop
  | same (hc : handleLeases calls = []) (hh : t'.handle? = t.handle?)
  | opens (hDl : Int32) (lastError : UInt32) (ha : a = .getFileByTime hDl lastError)
      (hc : handleLeases calls = [.grant hDl]) (hnone : t.handle? = none)
      (hsome : t'.handle? = some hDl)
  | closes (hDl : Int32) (hc : handleLeases calls = [.revoke hDl]) (hsome : t.handle? = some hDl)
      (hnone : t'.handle? = none)

variable {dl : HCNetSDKDownloader} {t t' : Thread} {a : Action}

theorem handleLeases_finished (dl : HCNetSDKDownloader) (ok : Bool) (error : String) :
    handleLeases (dl.finished ok error) = [] := by
  unfold finished
  split <;> rfl

theorem handleLeases_poll (dl : HCNetSDKDownloader) (hDl pos : Int32) :
    handleLeases (dl.poll hDl pos) = [] := by
  unfold poll progressed
  split
  · split <;> rfl
  · rfl

theorem uses_finished {ok : Bool} {error : String} {c : Call} (hc : c ∈ dl.finished ok error) :
    c.uses? = none := by
  unfold finished at hc
  split at hc
  · rw [List.mem_singleton.mp hc]
    rfl
  · cases hc

theorem uses_poll {hDl pos : Int32} {c : Call} (hc : c ∈ dl.poll hDl pos) :
    c.uses? = some hDl ∨ c.uses? = none := by
  rcases List.mem_cons.mp hc with rfl | hc
  · exact Or.inl rfl
  · split at hc
    · unfold progressed at hc
      split at hc
      · rw [List.mem_singleton.mp hc]
        exact Or.inr rfl
      · cases hc
    · cases hc

/-- The calls of a step are about the handle in the hands of the thread. -/
theorem handleStep (hs : Stepped dl t a t') : ∃ calls, t'.calls = t.calls ++ calls ∧
    HandleStep t t' a calls ∧ ∀ c ∈ calls, ∀ hDl, c.uses? = some hDl → t.handle? = some hDl := by
  cases hs with
  | cancelled => exact ⟨[], (List.append_nil _).symm, .same rfl rfl, fun _ hc => nomatch hc⟩
  | @openFailed hDl lastError hplace hneg =>
    refine ⟨_, rfl, .same ?_ ?_, fun c hc hDl' huse => ?_⟩
    · show handleLeases ([dl.getFileByTimeCall hDl] ++ dl.finished _ _) = []
      rw [handleLeases_append, handleLeases_finished]
      simp [handleLeases, Call.lease, getFileByTimeCall, hneg]
    · exact (congrArg Place.handle? hplace).symm
    · rcases List.mem_cons.mp hc with rfl | hc
      · cases huse
      · rw [uses_finished hc] at huse
        cases huse
  | @opened hDl lastError hplace hpos =>
    refine ⟨_, rfl, .opens hDl lastError rfl ?_ (congrArg Place.handle? hplace) rfl,
      fun c hc hDl' huse => ?_⟩
    · simp [handleLeases, Call.lease, getFileByTimeCall, hpos]
    · rw [List.mem_singleton.mp hc] at huse
      cases huse
  | @playFailed hDl lastError hplace =>
    have hholds : t.handle? = some hDl := congrArg Place.handle? hplace
    refine ⟨_, rfl, .closes hDl ?_ hholds rfl, fun c hc hDl' huse => ?_⟩
    · show handleLeases ([.playStart hDl false, .stopGetFile hDl] ++ dl.finished _ _) = _
      rw [handleLeases_append, handleLeases_finished]
      rfl
    · rcases List.mem_cons.mp hc with rfl | hc
      · exact hholds.trans huse
      · rcases List.mem_cons.mp hc with rfl | hc
        · exact hholds.trans huse
        · rw [uses_finished hc] at huse
          cases huse
  | @played hDl lastError hplace =>
    have hholds : t.handle? = some hDl := congrArg Place.handle? hplace
    refine ⟨_, rfl, .same rfl hholds.symm, fun c hc hDl' huse => ?_⟩
    rw [List.mem_singleton.mp hc] at huse
    exact hholds.trans huse
  | testedStop hplace | testedMore hplace =>
    refine ⟨[], (List.append_nil _).symm, .same rfl ?_, fun _ hc => nomatch hc⟩
    exact (congrArg Place.handle? hplace).symm
  | @sampledLast hDl pos hplace | @sampledMore hDl pos hplace =>
    have hholds : t.handle? = some hDl := congrArg Place.handle? hplace
    refine ⟨_, rfl, .same (handleLeases_poll _ _ _) hholds.symm, fun c hc hDl' huse => ?_⟩
    rcases uses_poll hc with hsome | hnone
    · exact hholds.trans (hsome.symm.trans huse)
    · rw [hnone] at huse
      cases huse
  | @stopped hDl pos hplace =>
    have hholds : t.handle? = some hDl := congrArg Place.handle? hplace
    refine ⟨_, rfl, .closes hDl rfl hholds rfl, fun c hc hDl' huse => ?_⟩
    rw [List.mem_singleton.mp hc] at huse
    exact hholds.trans huse
  | @finalTested pos lastError hplace =>
    refine ⟨_, rfl, .same (handleLeases_finished _ _ _) ?_, fun c hc hDl' huse => ?_⟩
    · exact (congrArg Place.handle? hplace).symm
    · rw [uses_finished hc] at huse
      cases huse

end HCNetSDKDownloader

namespace Plant

open HCNetSDKDownloader (Thread handleLeases)

variable {cfg : Config} {p p' : Plant} {a : Action}

/-! ## What the SDK has been told about downloads -/

/-- The calls of a step, read off the log of the thread. -/
def newCalls (t : Transition Plant Action) : List HCNetSDKDownloader.Call :=
  match t.action with
  | .thread id _ =>
    match t.pre.threads.lookup id, t.post.threads.lookup id with
    | some (_, u), some (_, u') => u'.calls.drop u.calls.length
    | _, _ => []
  | _ => []

/-- The calls of all threads, in the order they were made. A restart is a new process, and
with it a new SDK. -/
def sdkCalls : List (Transition Plant Action) → List HCNetSDKDownloader.Call
  | [] => []
  | t :: older =>
    match t.action with
    | .outside .restart => []
    | _ => sdkCalls older ++ newCalls t

def openHandles (tr : List (Transition Plant Action)) : List Int32 :=
  Lease.after [] (handleLeases (sdkCalls tr))

/-- What the SDK answers when a thread asks it for a handle. -/
def Action.given? : Action → Option Int32
  | .thread _ (.getFileByTime hDl _) => some hDl
  | _ => none

/-- The SDK gives no handle that it has still open. -/
def FreshHandle (older : List (Transition Plant Action)) (t : Transition Plant Action) : Prop :=
  ∀ hDl ∈ t.action.given?.toList, hDl ∉ openHandles older

instance (older : List (Transition Plant Action)) (t : Transition Plant Action) :
    Decidable (FreshHandle older t) :=
  List.decidableBAll (fun hDl => hDl ∉ openHandles older) t.action.given?.toList

def FreshHandles : List (Transition Plant Action) → Prop
  | [] => True
  | t :: older => FreshHandle older t ∧ FreshHandles older

instance : (tr : List (Transition Plant Action)) → Decidable (FreshHandles tr)
  | [] => inferInstanceAs (Decidable True)
  | t :: older =>
    have := instDecidableFreshHandles older
    inferInstanceAs (Decidable (FreshHandle older t ∧ FreshHandles older))

/-- The thread of a worker has the handle in its hands. -/
def Holds (p : Plant) (id : Nat) (hDl : Int32) : Prop :=
  ∃ w t, p.threads.lookup id = some (w, t) ∧ t.handle? = some hDl

/-! ## What each step does to the threads -/

inductive ThreadsStepped (p p' : Plant) : Action → Prop
  | restarted (ht : p'.threads = ∅) : ThreadsStepped p p' (.outside .restart)
  | kept {a : Action} (ht : p'.threads = p.threads) (hcalls : newCalls ⟨p, a, p'⟩ = [])
      (ha : a ≠ .outside .restart) : ThreadsStepped p p' a
  | started {env : Env} {probe : String → String × String} (w : Downloader)
      (ht : p'.threads = p.threads.insert w.id (w, {})) (hnew : w.id ∉ p.threads) :
      ThreadsStepped p p' (.handle env probe)
  | moved {id : Nat} {a : HCNetSDKDownloader.Action} {w : Downloader} {t t' : Thread}
      (hl : p.threads.lookup id = some (w, t)) (hs : HCNetSDKDownloader.Stepped (.ofWorker w) t a t')
      (ht : p'.threads = p.threads.insert id (w, t')) : ThreadsStepped p p' (.thread id a)

theorem threads_handle {env : Env} {probe : String → String × String} {m₁ : Machine}
    (hs : Sound p) (h : Machine.step cfg (.handle env) p.processor = some m₁) :
    (obey probe m₁.calls { p with processor := m₁ }).threads = p.threads ∨
      ∃ w : Downloader, (obey probe m₁.calls { p with processor := m₁ }).threads =
        p.threads.insert w.id (w, {}) ∧ w.id ∉ p.threads := by
  obtain ⟨-, hnum, -⟩ := Machine.numbered h
  have hfold : (obey probe m₁.calls { p with processor := m₁ }).threads =
      (m₁.calls.filterMap (·.download?)).foldl
        (fun (t : Table Nat (Downloader × Thread)) w => t.insert w.id (w, {})) p.threads := rfl
  rw [hfold]
  cases Machine.stepped h with
  | handle hq hclock hd =>
    obtain ⟨u', -, hstarts⟩ := hd.withUnread rfl ⟨[], [], [], fun _ => none, fun _ => none⟩
    cases hstarts with
    | nothing hud hup hux hcalls =>
      rw [List.filterMap_eq_nil_iff.mpr fun c hc => (hcalls c hc).1]
      exact Or.inl rfl
    | package w hud hup hux hcalls | exportClip w hud hup hux hcalls =>
      rw [hcalls.1]
      exact Or.inl rfl
    | download w hud hup hux hcalls =>
      have hid := (hnum w (Call.mem_of_download? hcalls.1)).1
      rw [hcalls.1]
      exact Or.inr ⟨w, rfl, hs.notMem_threads hid.ge⟩

theorem thread_stepped {id : Nat} {a : HCNetSDKDownloader.Action}
    (h : step cfg (.thread id a) p = some p') : ∃ w t t',
      p.threads.lookup id = some (w, t) ∧ HCNetSDKDownloader.Stepped (.ofWorker w) t a t' ∧
        p'.threads = p.threads.insert id (w, t') := by
  simp only [step] at h
  cases hl : p.threads.lookup id with
  | none =>
    rw [hl] at h
    cases h
  | some wt =>
    obtain ⟨w, t⟩ := wt
    rw [hl] at h
    obtain ⟨t', ht', rfl⟩ := Option.map_eq_some_iff.mp h
    exact ⟨w, t, t', rfl, HCNetSDKDownloader.stepped ht', rfl⟩

theorem threads_stepped (hs : Sound p) (h : step cfg a p = some p') : ThreadsStepped p p' a := by
  cases a with
  | outside a =>
    simp only [step] at h
    split at h
    · cases h
    · obtain ⟨m₁, hm, he⟩ := Option.map_eq_some_iff.mp h
      cases a with
      | restart =>
        obtain rfl := he
        exact .restarted rfl
      | post | access | requestExport | dropExport | handle | downloadWrite | downloadExit
      | packageWrite | packageExit | exportWrite | exportExit =>
        obtain rfl := he
        exact .kept rfl rfl (by simp)
  | handle env probe =>
    obtain ⟨m₁, hm, rfl⟩ := Option.map_eq_some_iff.mp h
    rcases threads_handle hs hm with ht | ⟨w, ht, hnew⟩
    · exact .kept ht rfl (by simp)
    · exact .started w ht hnew
  | thread id a =>
    obtain ⟨w, t, t', hl, hs, ht⟩ := thread_stepped h
    exact .moved hl hs ht
  | packager id e | exporter id e =>
    simp only [step] at h
    split at h
    · cases h
    · obtain rfl := Option.some.inj h
      exact .kept rfl rfl (by simp)
  | downloadWrite id f | packageWrite id f | exportWrite id f =>
    simp only [step] at h
    split at h
    · cases h
    · split at h
      · obtain rfl := Option.some.inj h
        exact .kept rfl rfl (by simp)
      · cases h

/-! ## In whose hands the handles are -/

variable {older tr : List (Transition Plant Action)}

def holding (wt : Downloader × Thread) : Option Int32 := wt.2.handle?

theorem sdkCalls_cons {t : Transition Plant Action} (h : t.action ≠ .outside .restart) :
    sdkCalls (t :: older) = sdkCalls older ++ newCalls t := by
  rw [sdkCalls]
  split
  · next ha => exact absurd ha h
  · rfl

theorem newCalls_moved {id : Nat} {a : HCNetSDKDownloader.Action} {w : Downloader} {t t' : Thread}
    {calls : List HCNetSDKDownloader.Call} (hl : p.threads.lookup id = some (w, t))
    (ht : p'.threads = p.threads.insert id (w, t')) (hcalls : t'.calls = t.calls ++ calls) :
    newCalls ⟨p, .thread id a, p'⟩ = calls := by
  have hl' : p'.threads.lookup id = some (w, t') := by rw [ht, AList.lookup_insert]
  simp only [newCalls, hl, hl', hcalls, List.drop_left]

/-- A step keeps the account. -/
theorem inHands_step (hi : InHands holding (handleLeases (sdkCalls older)) p.threads)
    (ht : ThreadsStepped p p' a) (hfresh : FreshHandle older ⟨p, a, p'⟩) :
    InHands holding (handleLeases (sdkCalls (⟨p, a, p'⟩ :: older))) p'.threads := by
  cases ht with
  | restarted ht =>
    rw [ht]
    exact .start
  | kept ht hcalls ha =>
    rw [sdkCalls_cons ha, hcalls, List.append_nil, ht]
    exact hi
  | @started env probe w ht hnew =>
    have hnone : newCalls ⟨p, .handle env probe, p'⟩ = [] := rfl
    rw [sdkCalls_cons (by simp), hnone, List.append_nil, ht]
    exact hi.enter hnew rfl
  | @moved id a w t t' hl hs ht =>
    obtain ⟨calls, hcalls, hstep, -⟩ := HCNetSDKDownloader.handleStep hs
    rw [sdkCalls_cons (by simp), newCalls_moved hl ht hcalls,
      HCNetSDKDownloader.handleLeases_append, ht]
    cases hstep with
    | same hc hh =>
      rw [hc, List.append_nil]
      exact hi.keep hl hh
    | opens hDl lastError ha hc hnone hsome =>
      subst ha
      rw [hc]
      exact hi.acquire hl hnone hsome (hfresh hDl List.mem_cons_self)
    | closes hDl hc hsome hnone =>
      rw [hc]
      exact hi.release hl hsome hnone

theorem inHands {disk : Disk} (h : (system cfg).Run (start disk) tr p)
    (hids : ∀ t ∈ tr, FreshRequest t) (hfresh : FreshHandles tr) :
    InHands holding (handleLeases (sdkCalls tr)) p.threads := by
  induction h with
  | nil => exact .start
  | @next tr p p' a hr hs ih =>
    rw [List.forall_mem_cons] at hids
    obtain ⟨m, -, hsound, -⟩ := (refinement cfg disk).reach hr hids.2
    exact inHands_step (ih hids.2 hfresh.2) (threads_stepped hsound hs) hfresh.1

theorem mem_openHandles (hi : InHands holding (handleLeases (sdkCalls tr)) p.threads)
    {hDl : Int32} : hDl ∈ openHandles tr ↔ ∃ id, Holds p id hDl := by
  rw [openHandles, hi.live.mem_iff, held, List.mem_filterMap]
  constructor
  · rintro ⟨wt, hwt, hh⟩
    obtain ⟨id, hl⟩ := Table.mem_values.mp hwt
    exact ⟨id, wt.1, wt.2, hl, hh⟩
  · rintro ⟨id, w, th, hl, hh⟩
    exact ⟨(w, th), Table.mem_values.mpr ⟨id, hl⟩, hh⟩

/-- A thread calls about the handle in its hands, and nobody else has it. -/
theorem used_alone (hi : InHands holding (handleLeases (sdkCalls tr)) p.threads) {id : Nat}
    {a : HCNetSDKDownloader.Action} (ht : ThreadsStepped p p' (.thread id a))
    {c : HCNetSDKDownloader.Call} (hc : c ∈ newCalls ⟨p, .thread id a, p'⟩) {hDl : Int32}
    (huse : c.uses? = some hDl) :
    hDl ∈ openHandles tr ∧ ∀ id', Holds p id' hDl ↔ id' = id := by
  cases ht with
  | kept ht hcalls =>
    rw [hcalls] at hc
    cases hc
  | @moved id a w th th' hl hsteps ht =>
    obtain ⟨calls, hcalls, -, huses⟩ := HCNetSDKDownloader.handleStep hsteps
    rw [newCalls_moved hl ht hcalls] at hc
    have hh : th.handle? = some hDl := huses c hc hDl huse
    refine ⟨hi.mem hl hh, fun id' => ⟨?_, ?_⟩⟩
    · rintro ⟨w', t', hl', hh'⟩
      exact hi.unique hl hh hl' hh'
    · rintro rfl
      exact ⟨w, th, hl, hh⟩

theorem FreshHandles.of_append {newer : List (Transition Plant Action)}
    (h : FreshHandles (newer ++ older)) : FreshHandles older := by
  induction newer with
  | nil => exact h
  | cons t newer ih => exact ih h.2

/-- How the SDK and the threads stand after a step. -/
structure HandlesInOrder (older : List (Transition Plant Action)) (t : Transition Plant Action) :
    Prop where
  /-- The open handles are those in the hands of the threads. -/
  live : (openHandles (t :: older)).Nodup ∧
    ∀ hDl, hDl ∈ openHandles (t :: older) ↔ ∃ id, Holds t.post id hDl
  /-- A thread calls the SDK about an open handle, which it alone has. -/
  used : ∀ id a, t.action = .thread id a → ∀ c ∈ newCalls t, ∀ hDl, c.uses? = some hDl →
    hDl ∈ openHandles older ∧ ∀ id', Holds t.pre id' hDl ↔ id' = id
  /-- A thread with a handle works for the downloading job of its key. -/
  job : ∀ id hDl, Holds t.post id hDl → ∃ w th job, t.post.threads.lookup id = some (w, th) ∧
    t.post.processor.activeJobs.lookup w.request.key = some job ∧ job.state = .downloading ∧
    job.downloader = some id

/-- **Download handles.** In every run of the processor with its threads, the handles that
the SDK has open are those in the hands of the threads of downloading jobs. -/
theorem handles_in_order {disk : Disk} {newer : List (Transition Plant Action)}
    {t : Transition Plant Action} (h : (system cfg).Run (start disk) (newer ++ t :: older) p)
    (hids : ∀ u ∈ newer ++ t :: older, FreshRequest u)
    (hfresh : FreshHandles (newer ++ t :: older)) : HandlesInOrder older t := by
  obtain ⟨hrun, hs⟩ := h.split
  have hids : ∀ u ∈ t :: older, FreshRequest u := fun u hu => hids u (List.mem_append_right _ hu)
  have hfresh : FreshHandles (t :: older) := hfresh.of_append
  have hrun' := hrun.next hs
  have hpre := inHands hrun (List.forall_mem_cons.mp hids).2 hfresh.2
  have hpost := inHands hrun' hids hfresh
  obtain ⟨mpre, -, hsound, -⟩ := (refinement cfg disk).reach hrun (List.forall_mem_cons.mp hids).2
  obtain ⟨m, hm, -, hr⟩ := (refinement cfg disk).reach hrun' hids
  refine ⟨⟨hpost.nodup, fun hDl => mem_openHandles hpost⟩, ?_, ?_⟩
  · intro id a ha c hc hDl huse
    have hstepped := threads_stepped hsound hs
    obtain ⟨pre, action, post⟩ := t
    obtain rfl : action = .thread id a := ha
    exact used_alone hpre hstepped hc huse
  · rintro id hDl ⟨w, th, hl, hh⟩
    have hlive : th.place ≠ .ended := by
      intro hend
      rw [Thread.handle?, hend] at hh
      cases hh
    obtain ⟨job, hj, hstate, hdown⟩ := hr.job_of_thread (Machine.ownership hm) hl hlive
    exact ⟨w, th, job, hl, hj, hstate, hdown⟩

namespace Sample

/-- Two downloads at the same time, and a handle that is given again. -/
def twoDownloads : List Action :=
  [.outside (.post (Machine.Sample.request "00000000000000aa")), .handle Machine.Sample.env probe,
    .outside (.post (Machine.Sample.request "00000000000000bb")), .handle Machine.Sample.env probe,
    .thread 0 (.getFileByTime 5 0), .thread 1 (.getFileByTime 6 0), .thread 1 (.playStart true 0),
    .thread 0 (.playStart false 0), .thread 1 .test, .handle Machine.Sample.env probe,
    .outside (.post (Machine.Sample.request "00000000000000cc")), .handle Machine.Sample.env probe,
    .thread 2 (.getFileByTime 5 0), .thread 1 (.getDownloadPos 30)]

end Sample

theorem handles_in_order_twoDownloads :
    ∃ h : ((system Machine.Sample.config).replay (start {}) Sample.twoDownloads).isSome = true,
      openHandles (((system Machine.Sample.config).replay (start {}) Sample.twoDownloads).get h).1 =
        [5, 6] ∧
      ∀ newer t older, (((system Machine.Sample.config).replay (start {})
        Sample.twoDownloads).get h).1 = newer ++ t :: older → HandlesInOrder older t := by
  have hsome : ((system Machine.Sample.config).replay (start {})
    Sample.twoDownloads).isSome = true := by decide
  have hids : ∀ u ∈ (((system Machine.Sample.config).replay (start {})
    Sample.twoDownloads).get hsome).1, FreshRequest u := by decide +revert
  have hfresh : FreshHandles (((system Machine.Sample.config).replay (start {})
    Sample.twoDownloads).get hsome).1 := by decide +revert
  refine ⟨hsome, by decide +revert, fun newer t older he => ?_⟩
  have hrun := System.run_get hsome
  rw [he] at hrun hids hfresh
  exact handles_in_order hrun hids hfresh

end Plant

end VisionPlayback
