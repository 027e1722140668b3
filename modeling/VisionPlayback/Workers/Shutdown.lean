import VisionPlayback.Workers.Handles

/-!
# The destruction of the processor

When the processor is destroyed its jobs go one after another, and a job takes its thread
with it: the flag is set and the thread is joined. No slot runs any more by then; the
threads of the other jobs do.
-/

namespace VisionPlayback

open Lib

namespace Plant

open HCNetSDKDownloader (Thread)

variable {cfg : Config} {p p' : Plant} {id : Nat} {ids : List Nat}
  {tr : List (Transition Plant Action)}

/-- Steps of threads, and flags that are set for them. -/
def Action.ofThread : Action → Bool
  | .thread _ _ => true
  | _ => false

/-- The steps of one thread itself. -/
def Action.ownOf (id : Nat) : Action → Bool
  | .thread id' a => decide (id' = id) && a.own
  | _ => false

def Ended (p : Plant) (id : Nat) : Prop :=
  ∃ w t, p.threads.lookup id = some (w, t) ∧ t.place = .ended

/-- The destruction of the threads `ids`, in this order. -/
inductive Destroys (cfg : Config) :
    List Nat → Plant → List (Transition Plant Action) → Plant → Prop
  | done (p : Plant) : Destroys cfg [] p [] p
  | next {id : Nat} {ids : List Nat} {p p₁ p₂ p₃ : Plant}
      {tr tr' : List (Transition Plant Action)} (hflag : step cfg (.thread id .cancel) p = some p₁)
      (hjoin : (system cfg).Run p₁ tr p₂) (hthreads : ∀ u ∈ tr, u.action.ofThread = true)
      (hended : Ended p₂ id) (hrest : Destroys cfg ids p₂ tr' p₃) :
      Destroys cfg (id :: ids) p (tr' ++ (tr ++ [⟨p, .thread id .cancel, p₁⟩])) p₃

/-- The threads of the jobs in the table. -/
def jobThreads (p : Plant) : List Nat := p.processor.activeJobs.values.filterMap (·.downloader)

/-! ## What the steps of threads leave alone -/

def Flagged (id : Nat) (p : Plant) : Prop :=
  ∃ w t, p.threads.lookup id = some (w, t) ∧ t.cancelled = true

/-- How many steps a thread has left at most, once its flag is set. -/
def left (id : Nat) (p : Plant) : ℕ :=
  match p.threads.lookup id with
  | some (_, t) => HCNetSDKDownloader.remaining t.place
  | none => 0

theorem left_eq {w : Downloader} {t : Thread} (hl : p.threads.lookup id = some (w, t)) :
    left id p = HCNetSDKDownloader.remaining t.place := by
  rw [left, hl]

/-- A thread's own step moves it; the step of another one does not. -/
theorem own_or_other {id' : Nat} {b : HCNetSDKDownloader.Action} {w : Downloader} {t : Thread}
    (h : step cfg (.thread id' b) p = some p') (hl : p.threads.lookup id = some (w, t)) :
    (id' = id ∧ ∃ t', HCNetSDKDownloader.Stepped (.ofWorker w) t b t' ∧
        p'.threads.lookup id = some (w, t')) ∨
      (id' ≠ id ∧ p'.threads.lookup id = some (w, t)) := by
  obtain ⟨w', t₀, t', hl', hsteps, ht⟩ := thread_stepped h
  by_cases hid : id' = id
  · subst hid
    obtain ⟨rfl, rfl⟩ := Prod.mk.inj (Option.some.inj (hl.symm.trans hl'))
    exact Or.inl ⟨rfl, t', hsteps, by rw [ht, AList.lookup_insert]⟩
  · exact Or.inr ⟨hid, by rw [ht, AList.lookup_insert_ne (Ne.symm hid), hl]⟩

theorem ofThread_eq {a : Action} (h : a.ofThread = true) : ∃ id b, a = .thread id b := by
  cases a with
  | thread id b => exact ⟨id, b, rfl⟩
  | outside | handle | packager | exporter | downloadWrite | packageWrite | exportWrite => cases h

theorem ownOf_eq {a : Action} (h : a.ownOf id = true) :
    ∃ b, a = .thread id b ∧ b.own = true := by
  cases a with
  | thread id' b =>
    obtain ⟨hid, hown⟩ := Bool.and_eq_true_iff.mp h
    obtain rfl := of_decide_eq_true hid
    exact ⟨b, rfl, hown⟩
  | outside | handle | packager | exporter | downloadWrite | packageWrite | exportWrite => cases h

/-- The steps of the threads keep the flag, and the flagged thread uses up what it has left. -/
theorem settles (cfg : Config) (id : Nat) : System.Settles (system cfg) Action.ofThread
    (Action.ownOf id) (Flagged id) (left id) where
  keeps a p p' ha hi hs := by
    obtain ⟨id', b, rfl⟩ := ofThread_eq ha
    have hs : step cfg (.thread id' b) p = some p' := hs
    obtain ⟨w, t, hl, hc⟩ := hi
    rcases own_or_other hs hl with ⟨-, t', hsteps, hl'⟩ | ⟨-, hl'⟩
    · exact ⟨w, t', hl', HCNetSDKDownloader.stays_cancelled hsteps hc⟩
    · exact ⟨w, t, hl', hc⟩
  le a p p' ha hi hs := by
    obtain ⟨id', b, rfl⟩ := ofThread_eq ha
    have hs : step cfg (.thread id' b) p = some p' := hs
    obtain ⟨w, t, hl, hc⟩ := hi
    rcases own_or_other hs hl with ⟨-, t', hsteps, hl'⟩ | ⟨-, hl'⟩
    · rw [left_eq hl, left_eq hl']
      cases hown : b.own with
      | true => exact Nat.le_of_lt (HCNetSDKDownloader.remaining_lt hsteps hc hown)
      | false =>
        cases hsteps with
        | cancelled => exact Nat.le_refl _
        | openFailed | opened | playFailed | played | testedStop | testedMore | sampledLast
        | sampledMore | stopped | finalTested => cases hown
    · rw [left_eq hl, left_eq hl']
  lt a p p' ha hi hs := by
    obtain ⟨b, rfl, hown⟩ := ownOf_eq ha
    have hs : step cfg (.thread id b) p = some p' := hs
    obtain ⟨w, t, hl, hc⟩ := hi
    rcases own_or_other hs hl with ⟨-, t', hsteps, hl'⟩ | ⟨hne, -⟩
    · rw [left_eq hl, left_eq hl']
      exact HCNetSDKDownloader.remaining_lt hsteps hc hown
    · exact absurd rfl hne
  quiet_of_drains a ha := by
    obtain ⟨b, rfl, -⟩ := ownOf_eq ha
    rfl

/-- A flagged thread that cannot move has ended. -/
theorem ended_of_stuck (hi : Flagged id p) (h : (system cfg).Stuck (Action.ownOf id) p) :
    Ended p id := by
  obtain ⟨w, t, hl, -⟩ := hi
  have hstuck : (HCNetSDKDownloader.system (.ofWorker w)).Stuck
      HCNetSDKDownloader.Action.own t := by
    intro a hown
    have hnone : step cfg (.thread id a) p = none := h (.thread id a) (by simp [Action.ownOf, hown])
    simp only [step, hl, Option.map_eq_none_iff] at hnone
    exact hnone
  exact ⟨w, t, hl, HCNetSDKDownloader.ended_of_stuck hstuck⟩

theorem ended_step (h : Ended p id) {a : Action} (ha : a.ofThread = true)
    (hs : step cfg a p = some p') : Ended p' id := by
  obtain ⟨w, t, hl, hend⟩ := h
  obtain ⟨id', b, rfl⟩ := ofThread_eq ha
  rcases own_or_other hs hl with ⟨-, t', hsteps, hl'⟩ | ⟨-, hl'⟩
  · refine ⟨w, t', hl', ?_⟩
    cases hsteps with
    | cancelled => exact hend
    | openFailed hplace | opened hplace | playFailed hplace | played hplace | testedStop hplace
    | testedMore hplace | sampledLast hplace | sampledMore hplace | stopped hplace
    | finalTested hplace => exact absurd (hend.symm.trans hplace) (by simp)
  · exact ⟨w, t, hl', hend⟩

/-- The threads stay the same ones. -/
theorem mem_threads_step {a : Action} (ha : a.ofThread = true) (hs : step cfg a p = some p') :
    id ∈ p'.threads ↔ id ∈ p.threads := by
  obtain ⟨id', b, rfl⟩ := ofThread_eq ha
  obtain ⟨w, t, t', hl, -, ht⟩ := thread_stepped hs
  rw [ht, AList.mem_insert]
  constructor
  · intro h
    rcases h with rfl | h
    · exact Table.mem_iff_lookup.mpr ⟨_, hl⟩
    · exact h
  · exact Or.inr

theorem ended_run (h : Ended p id) (hr : (system cfg).Run p tr p')
    (ha : ∀ u ∈ tr, u.action.ofThread = true) : Ended p' id :=
  (hr.invariant_of (I := fun p => Ended p id) ha h
    fun _ hi hs hthread => ended_step hi hthread hs).1

theorem mem_threads_run (hr : (system cfg).Run p tr p')
    (ha : ∀ u ∈ tr, u.action.ofThread = true) : id ∈ p'.threads ↔ id ∈ p.threads :=
  (hr.invariant_of (I := fun p' => id ∈ p'.threads ↔ id ∈ p.threads) ha Iff.rfl
    fun _ hi hs hthread => (mem_threads_step hthread hs).trans hi).1

/-! ## Destruction -/

theorem exists_flagged (cfg : Config) (h : id ∈ p.threads) :
    ∃ p', step cfg (.thread id .cancel) p = some p' := by
  obtain ⟨⟨w, t⟩, hl⟩ := Table.mem_iff_lookup.mp h
  simp only [step, hl, HCNetSDKDownloader.step, Option.map_some]
  exact ⟨_, rfl⟩

theorem flagged (hs : step cfg (.thread id .cancel) p = some p') : Flagged id p' := by
  obtain ⟨w, t, t', hl, hsteps, ht⟩ := thread_stepped hs
  cases hsteps with
  | cancelled => exact ⟨w, _, by rw [ht, AList.lookup_insert], rfl⟩

theorem left_le (id : Nat) (p : Plant) : left id p ≤ 5 := by
  unfold left
  split
  · next w t hl => cases t.place <;> simp [HCNetSDKDownloader.remaining]
  · omega

/-- A join comes to its end: once the flag is set the thread takes five more steps at most,
and can always take them, whatever the other threads do. -/
theorem join_ends {p₁ : Plant} (hflag : step cfg (.thread id .cancel) p = some p₁)
    (hr : (system cfg).Run p₁ tr p') (ha : ∀ u ∈ tr, u.action.ofThread = true) :
    (tr.countP fun u => u.action.ownOf id) ≤ 5 ∧
      ∃ newer p'', (system cfg).Run p₁ (newer ++ tr) p'' ∧
        (∀ u ∈ newer, u.action.ownOf id = true) ∧ Ended p'' id := by
  obtain ⟨hi, hle⟩ := (settles cfg id).run (flagged hflag) hr ha
  constructor
  · have hfive := left_le id p₁
    omega
  · obtain ⟨newer, p'', hrun, hall, hstuck, hi'⟩ := (settles cfg id).carry_on hr hi
    exact ⟨newer, p'', hrun, hall, ended_of_stuck hi' hstuck⟩

theorem exists_destroys (cfg : Config) (ids : List Nat) (h : ∀ id ∈ ids, id ∈ p.threads) :
    ∃ tr p', Destroys cfg ids p tr p' := by
  induction ids generalizing p with
  | nil => exact ⟨[], p, .done p⟩
  | cons id ids ih =>
    rw [List.forall_mem_cons] at h
    obtain ⟨p₁, hflag⟩ := exists_flagged cfg h.1
    obtain ⟨-, newer, p₂, hjoin, hown, hended⟩ := join_ends hflag .nil (List.forall_mem_nil _)
    rw [List.append_nil] at hjoin
    have hthreads : ∀ u ∈ newer, u.action.ofThread = true :=
      fun u hu => (settles cfg id).quiet_of_drains _ (hown u hu)
    obtain ⟨tr', p₃, hrest⟩ := ih fun id' hid' => (mem_threads_run hjoin hthreads).mpr
      ((mem_threads_step rfl hflag).mpr (h.2 id' hid'))
    exact ⟨_, p₃, .next hflag hjoin hthreads hended hrest⟩

theorem Destroys.run (h : Destroys cfg ids p tr p') :
    (system cfg).Run p tr p' ∧ ∀ u ∈ tr, u.action.ofThread = true := by
  induction h with
  | done p => exact ⟨.nil, List.forall_mem_nil _⟩
  | @next id ids p p₁ p₂ p₃ tr tr' hflag hjoin hthreads hended hrest ih =>
    constructor
    · have hfirst : (system cfg).Run p [⟨p, .thread id .cancel, p₁⟩] p₁ := System.Run.nil.next hflag
      exact (hfirst.append hjoin).append ih.1
    · intro u hu
      rcases List.mem_append.mp hu with hu | hu
      · exact ih.2 u hu
      · rcases List.mem_append.mp hu with hu | hu
        · exact hthreads u hu
        · rw [List.mem_singleton.mp hu]
          rfl

theorem Destroys.ended (h : Destroys cfg ids p tr p') : ∀ id ∈ ids, Ended p' id := by
  induction h with
  | done p => exact List.forall_mem_nil _
  | next hflag hjoin hthreads hended hrest ih =>
    exact List.forall_mem_cons.mpr ⟨ended_run hended hrest.run.1 hrest.run.2, ih⟩

variable {disk : Disk} {older : List (Transition Plant Action)}

theorem mem_threads_of_job (h : (system cfg).Run (start disk) tr p)
    (hids : ∀ t ∈ tr, FreshRequest t) (hid : id ∈ jobThreads p) : id ∈ p.threads := by
  obtain ⟨job, hjob, hdown⟩ := List.mem_filterMap.mp hid
  obtain ⟨k, hj⟩ := Table.mem_values.mp hjob
  obtain ⟨m, hm, hs, hr⟩ := (refinement cfg disk).reach h hids
  rw [← hr.activeJobs_eq] at hj
  rcases (Machine.ownership hm).phase hj with ⟨-, -, id', hid', htok⟩ | ⟨-, hnone, -⟩
  · obtain rfl := Option.some.inj (hdown.symm.trans hid')
    obtain ⟨w, t, hl, -⟩ := hs.downloadHeld_of_token hr htok
    exact Table.mem_iff_lookup.mpr ⟨_, hl⟩
  · rw [hnone] at hdown
    cases hdown

/-- The threads that no job has any more have ended. -/
theorem ended_of_no_job (h : (system cfg).Run (start disk) tr p)
    (hids : ∀ t ∈ tr, FreshRequest t) (hid : id ∈ p.threads) (hno : id ∉ jobThreads p) :
    Ended p id := by
  obtain ⟨⟨w, t⟩, hl⟩ := Table.mem_iff_lookup.mp hid
  refine ⟨w, t, hl, ?_⟩
  by_contra hlive
  obtain ⟨m, hm, -, hr⟩ := (refinement cfg disk).reach h hids
  obtain ⟨job, hj, -, hdown⟩ := hr.job_of_thread (Machine.ownership hm) hl hlive
  exact hno (List.mem_filterMap.mpr ⟨job, Table.mem_values.mpr ⟨_, hj⟩, hdown⟩)

theorem openHandles_of_ended (h : (system cfg).Run (start disk) tr p)
    (hids : ∀ t ∈ tr, FreshRequest t) (hfresh : FreshHandles tr)
    (hended : ∀ id ∈ p.threads, Ended p id) : openHandles tr = [] := by
  rw [List.eq_nil_iff_forall_not_mem]
  intro hDl hmem
  obtain ⟨id, w, t, hl, hh⟩ := (mem_openHandles (inHands h hids hfresh)).mp hmem
  obtain ⟨w', t', hl', hend⟩ := hended id (Table.mem_iff_lookup.mpr ⟨_, hl⟩)
  obtain ⟨rfl, rfl⟩ := Prod.mk.inj (Option.some.inj (hl.symm.trans hl'))
  rw [HCNetSDKDownloader.Thread.handle?, hend] at hh
  cases hh

theorem freshRequest_of_thread {t : Transition Plant Action} (h : t.action.ofThread = true) :
    FreshRequest t := by
  obtain ⟨pre, a, post⟩ := t
  obtain ⟨id, b, rfl⟩ := ofThread_eq h
  trivial

/-- **Destruction.** From any state, and in any order of the jobs, the destruction of the
processor can always be carried on to its end: a join waits for five steps of its thread at
most. It leaves no thread running and, with an SDK that gives no handle twice, no download
handle open. -/
theorem destruction_ends (h : (system cfg).Run (start disk) tr p)
    (hids : ∀ t ∈ tr, FreshRequest t) (hjobs : ids.Perm (jobThreads p)) :
    (∃ tr' p', Destroys cfg ids p tr' p') ∧
      (∀ id q q₁ q₂ joining, step cfg (.thread id .cancel) q = some q₁ →
        (system cfg).Run q₁ joining q₂ → (∀ u ∈ joining, u.action.ofThread = true) →
        (joining.countP fun u => u.action.ownOf id) ≤ 5 ∧
          ∃ newer q₃, (system cfg).Run q₁ (newer ++ joining) q₃ ∧
            (∀ u ∈ newer, u.action.ownOf id = true) ∧ Ended q₃ id) ∧
      ∀ tr' p', Destroys cfg ids p tr' p' → (∀ id ∈ p'.threads, Ended p' id) ∧
        (FreshHandles (tr' ++ tr) → openHandles (tr' ++ tr) = []) := by
  refine ⟨exists_destroys cfg ids fun id hid => ?_, fun _ _ _ _ _ => join_ends,
    fun tr' p' hd => ?_⟩
  · exact mem_threads_of_job h hids (hjobs.mem_iff.mp hid)
  · obtain ⟨hrun, hthreads⟩ := hd.run
    have hended : ∀ id ∈ p'.threads, Ended p' id := by
      intro id hid
      by_cases hjob : id ∈ jobThreads p
      · exact hd.ended id (hjobs.mem_iff.mpr hjob)
      · exact ended_run (ended_of_no_job h hids ((mem_threads_run hrun hthreads).mp hid) hjob)
          hrun hthreads
    have hids' : ∀ t ∈ tr' ++ tr, FreshRequest t := by
      intro t ht
      rcases List.mem_append.mp ht with ht | ht
      · exact freshRequest_of_thread (hthreads t ht)
      · exact hids t ht
    exact ⟨hended, fun hfresh => openHandles_of_ended (h.append hrun) hids' hfresh hended⟩

namespace Sample

/-- What the threads do while the first of them is joined; the other one goes on. -/
def firstJoin : List Action :=
  [.thread 2 (.playStart true 0), .thread 1 .test, .thread 1 .stopGetFile,
    .thread 2 .test, .thread 1 (.finalTest 0)]

def secondJoin : List Action :=
  [.thread 2 (.getDownloadPos 30), .thread 2 .test, .thread 2 .stopGetFile,
    .thread 2 (.finalTest 0)]

end Sample

theorem destruction_ends_twoDownloads :
    ∃ h : ((system Machine.Sample.config).replay (start {}) Sample.twoDownloads).isSome = true,
      let r := ((system Machine.Sample.config).replay (start {}) Sample.twoDownloads).get h
      openHandles r.1 = [5, 6] ∧
        ∃ tr' p', Destroys Machine.Sample.config [1, 2] r.2 tr' p' ∧ FreshHandles (tr' ++ r.1) ∧
          (∀ id ∈ p'.threads, Ended p' id) ∧ openHandles (tr' ++ r.1) = [] := by
  have hsome : ((system Machine.Sample.config).replay (start {})
    Sample.twoDownloads).isSome = true := by decide
  have hopen : openHandles (((system Machine.Sample.config).replay (start {})
    Sample.twoDownloads).get hsome).1 = [5, 6] := by decide +revert
  have hids : ∀ u ∈ (((system Machine.Sample.config).replay (start {})
    Sample.twoDownloads).get hsome).1, FreshRequest u := by decide +revert
  have hjobs : [1, 2].Perm (jobThreads (((system Machine.Sample.config).replay (start {})
    Sample.twoDownloads).get hsome).2) := by decide +revert
  have hflag : (step Machine.Sample.config (.thread 1 .cancel) (((system
    Machine.Sample.config).replay (start {}) Sample.twoDownloads).get hsome).2).isSome = true := by
    decide +revert
  have hjoin : ((system Machine.Sample.config).replay (Option.get _ hflag)
    Sample.firstJoin).isSome = true := by decide +revert
  have hflag' : (step Machine.Sample.config (.thread 2 .cancel)
    (Option.get _ hjoin).2).isSome = true := by decide +revert
  have hjoin' : ((system Machine.Sample.config).replay (Option.get _ hflag')
    Sample.secondJoin).isSome = true := by decide +revert
  have hd := Destroys.next (Option.some_get hflag).symm (System.run_get hjoin)
    (by decide +revert) ⟨_, _, rfl, rfl⟩
    (Destroys.next (Option.some_get hflag').symm (System.run_get hjoin') (by decide +revert)
      ⟨_, _, rfl, rfl⟩ (.done _))
  have hall := (destruction_ends (System.run_get hsome) hids hjobs).2.2 _ _ hd
  refine ⟨hsome, hopen, _, _, hd, ?hfresh, hall.1, hall.2 ?hfresh⟩
  clear hall hd
  decide +revert

end Plant

end VisionPlayback
