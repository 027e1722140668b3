import Mathlib.Computability.NFA
import VisionPlayback.Http.Mirror

/-!
# The statuses of a key, in order

What the processor sends about a key, over a whole run, is a word of a small
automaton whose state is the phase of the key's job. The listener hears that word
from its beginning, and its table holds the last status that it has heard.
-/

namespace VisionPlayback

open Lib Lib.Replica StreamCache

/-- How far the recording of a key has come. -/
inductive Phase
  | idle | pending | downloading | packaging
  deriving DecidableEq

/-- The phases after a status. A POST may find the manifest of the packaging run that is
under way, and so `ready` does not always end the phase. -/
def Phase.next : Phase → StreamStatus → List Phase
  | .idle, .ready => [.idle]
  | .idle, .failed => [.idle]
  | .idle, .pending => [.pending]
  | .idle, .downloading => [.downloading]
  | .pending, .packaging => [.packaging]
  | .downloading, .packaging => [.packaging]
  | .downloading, .failed => [.idle]
  | .packaging, .ready => [.packaging, .idle]
  | .packaging, .failed => [.idle]
  | _, _ => []

/-- The words of statuses that a key may have; each of their beginnings is one too. -/
def statusGrammar : NFA StreamStatus Phase where
  step p s := {p' | p' ∈ p.next s}
  start := {.idle}
  accept := Set.univ

def JobState.phase : JobState → Phase
  | .pending => .pending
  | .downloading => .downloading
  | .packaging => .packaging

def Job.phase? : Option Job → Phase
  | none => .idle
  | some job => job.state.phase

/-- The word `ss` leads from `p` to `p'`. -/
def Leads (p : Phase) (ss : List StreamStatus) (p' : Phase) : Prop :=
  p' ∈ statusGrammar.evalFrom {p} ss

namespace Leads

variable {p p' p'' : Phase} {s : StreamStatus} {ss ss' : List StreamStatus}

theorem nil (p : Phase) : Leads p [] p := Set.mem_singleton p

theorem append (h : Leads p ss p') (h' : Leads p' ss' p'') : Leads p (ss ++ ss') p'' := by
  rw [Leads, NFA.evalFrom_append]
  exact NFA.mem_evalFrom_iff_exists.mpr ⟨p', h, h'⟩

theorem single (h : p' ∈ p.next s) : Leads p [s] p' := by
  rw [Leads, NFA.evalFrom_singleton, NFA.stepSet_singleton]
  exact h

end Leads

/-- The beginning of a word is a word. -/
theorem mem_accepts_of_append {p : Phase} {ss ss' : List StreamStatus}
    (h : Leads .idle (ss ++ ss') p) : ss ∈ statusGrammar.accepts := by
  rw [Leads, NFA.evalFrom_append] at h
  obtain ⟨p', hp', -⟩ := NFA.mem_evalFrom_iff_exists.mp h
  exact ⟨p', Set.mem_univ p', hp'⟩

/-- The statuses among some updates that are about one key. -/
def statusesOf (hex : String) (us : List (String × StreamStatus)) : List StreamStatus :=
  us.filterMap fun u => if u.1 = hex then some u.2 else none

theorem statusesOf_append (hex : String) (us us' : List (String × StreamStatus)) :
    statusesOf hex (us ++ us') = statusesOf hex us ++ statusesOf hex us' :=
  List.filterMap_append

theorem statusesOf_map (hex hex' : String) (ss : List StreamStatus) :
    statusesOf hex (ss.map (hex', ·)) = if hex' = hex then ss else [] := by
  rw [statusesOf, List.filterMap_map]
  split
  · next h => subst h; simp
  · next h => simp [h]

namespace Machine

variable {cfg : Config} {env : Env} {m m' : Machine} {V : String → Option StreamStatus}

def phase (m : Machine) (k : PlaybackKey) : Phase := Job.phase? (m.activeJobs.lookup k)

/-- A step says, of every key, a word that leads from its phase to its new phase. -/
def Says (m m' : Machine) : Prop :=
  ∀ k, Leads (m.phase k) (statusesOf k.hex m'.told) (m'.phase k)

theorem says_nothing (ht : m'.told = []) (hj : m'.activeJobs = m.activeJobs) : Says m m' := by
  intro k
  rw [phase, phase, ht, hj]
  exact .nil _

/-- A step that is about one key. -/
theorem says_of (key : PlaybackKey) (ss : List StreamStatus) (o : Option Job)
    (ht : m'.told = ss.map (key.hex, ·))
    (hj : ∀ k, m'.activeJobs.lookup k = if k = key then o else m.activeJobs.lookup k)
    (hl : Leads (m.phase key) ss (Job.phase? o)) : Says m m' := by
  intro k
  rw [phase, phase, ht, statusesOf_map, hj k]
  by_cases hk : k = key
  · rw [hk, if_pos rfl, if_pos rfl]
    exact hl
  · have hne : ¬ key.hex = k.hex := fun h => hk (dashDir_inj h).symm
    rw [if_neg hne, if_neg hk]
    exact .nil _

theorem phase_of_notMem {key : PlaybackKey} (h : key ∉ m.activeJobs) : m.phase key = .idle := by
  rw [phase, AList.lookup_eq_none.mpr h]
  rfl

theorem Requested.says {r : PlaybackRequest} (hi : Mirrors V m) (hph : ∀ k, m.phase k ≠ .pending)
    (ht : m.told = []) (h : Requested cfg env r m m') : Says m m' := by
  cases h with
  | ready hdash =>
    refine says_of r.key [.ready] (m.activeJobs.lookup r.key) ?_ ?_ ?_
    · rw [told_statusChanged, ht]
      rfl
    · intro k
      split
      · next hk => rw [hk]; rfl
      · rfl
    · -- the manifest is the old one, or that of the packaging run
      have hself : Job.phase? (m.activeJobs.lookup r.key) = m.phase r.key := rfl
      rw [hself]
      cases hp : m.phase r.key with
      | idle => exact .single (by decide)
      | packaging => exact .single (by decide)
      | pending => exact absurd hp (hph r.key)
      | downloading =>
        cases hj : m.activeJobs.lookup r.key with
        | none => rw [phase, hj] at hp; cases hp
        | some job =>
          have hs : job.state = .downloading := by
            rw [phase, hj] at hp
            cases hstate : job.state with
            | downloading => rfl
            | pending | packaging => rw [Job.phase?, hstate] at hp; cases hp
          rw [hi.unpackaged r.key job hj hs] at hdash
          cases hdash
  | active => exact says_nothing ht rfl
  | refused hdash hjob =>
    refine says_of r.key [.failed] none ?_ ?_ ?_
    · rw [told_statusChanged, told_afterLogin, ht]
      rfl
    · intro k
      split
      · next hk => rw [hk]; exact AList.lookup_eq_none.mpr hjob
      · rfl
    · rw [phase_of_notMem hjob]
      exact .single (by decide)
  | shortcut hdash hjob =>
    refine says_of r.key ([.pending] ++ [.packaging]) _ ?_
      (fun k => Table.lookup_insert_eq _ _ _ _) ?_
    · rw [told_launchPackager, told_statusChanged, told_emplaceJob, told_afterLogin, ht]
      rfl
    · rw [phase_of_notMem hjob]
      have hpending : Leads .idle [.pending] .pending := .single List.mem_cons_self
      exact hpending.append (.single List.mem_cons_self)
  | download hdash hjob =>
    refine says_of r.key [.downloading] _ ?_
      (fun k => Table.lookup_insert_eq _ _ _ _) ?_
    · rw [told_launchDownloader, told_afterLogin, ht]
      rfl
    · rw [phase_of_notMem hjob]
      exact .single List.mem_cons_self

theorem DownloadHandled.says {key : PlaybackKey} {success : Bool} {job : Job}
    (ht : m.told = []) (hjob : m.activeJobs.lookup key = some job)
    (hstate : job.state = .downloading) (h : DownloadHandled env key success m m') :
    Says m m' := by
  have hp : m.phase key = .downloading := by
    rw [phase, hjob, Job.phase?, hstate]
    rfl
  cases h with
  | ignored hnone => rw [hjob] at hnone; cases hnone
  | failed hj hok =>
    refine says_of key [.failed] none ?_
      (fun k => Table.lookup_erase_eq _ _ _) ?_
    · rw [told_statusChanged]
      exact congrArg (· ++ _) ht
    · rw [hp]
      exact .single (by decide)
  | packaging hj hok =>
    refine says_of key [.packaging] _ ?_
      (fun k => Table.lookup_insert_eq _ _ _ _) ?_
    · rw [told_launchPackager, ht]
      rfl
    · rw [hp]
      exact .single List.mem_cons_self

theorem PackageHandled.says {key : PlaybackKey} {success : Bool} {job : Job}
    (ht : m.told = []) (hjob : m.activeJobs.lookup key = some job)
    (hstate : job.state = .packaging) (h : PackageHandled cfg env key success m m') :
    Says m m' := by
  have hp : m.phase key = .packaging := by
    rw [phase, hjob, Job.phase?, hstate]
    rfl
  cases h with
  | ignored hnone => rw [hjob] at hnone; cases hnone
  | failed hj hok =>
    refine says_of key [.failed] none ?_
      (fun k => Table.lookup_erase_eq _ _ _) ?_
    · rw [told_statusChanged]
      exact congrArg (· ++ _) ht
    · rw [hp]
      exact .single (by decide)
  | ready hj hok =>
    refine says_of key [.ready] none ?_
      (fun k => Table.lookup_erase_eq _ _ _) ?_
    · rw [told_statusChanged, told_evict]
      exact congrArg (· ++ _) ht
    · rw [hp]
      exact .single (by decide)

theorem says_step {a : Action} (hi : Mirrors V m) (ho : Ownership m) (ha : a ≠ .restart)
    (h : Machine.step cfg a m = some m') : Says m m' := by
  have hph : ∀ k, m.phase k ≠ .pending := by
    intro k
    rw [phase]
    cases hj : m.activeJobs.lookup k with
    | none => exact nofun
    | some job =>
      rcases ho.phase hj with ⟨hs, -⟩ | ⟨hs, -⟩
      · rw [Job.phase?, hs]; exact nofun
      · rw [Job.phase?, hs]; exact nofun
  cases stepped h with
  | @handle env e q m' hq hclock hs =>
    have hi' : Mirrors V (m.popped env q) := hi.frame rfl fun _ _ _ _ h => h
    cases hs with
    | playbackRequested hs =>
      have h : Says (m.popped env q) m' := hs.says hi' hph rfl
      exact h
    | keyAccessed hs => exact says_nothing (by rw [hs]; rfl) (by rw [hs]; rfl)
    | exportRequested hs => cases hs <;> exact says_nothing rfl rfl
    | @downloadFinished w key ok err hs =>
      obtain ⟨-, job, hjob, -, howns⟩ := ho.spend (t := .downloaded w ok) env hq fun _ => rfl
      have h : Says (m.popped env q) m' := hs.says rfl hjob howns.1
      exact h
    | @packageFinished w key ok err hs =>
      obtain ⟨-, job, hjob, -, howns⟩ := ho.spend (t := .packaged w ok) env hq fun _ => rfl
      have h : Says (m.popped env q) m' := hs.says rfl hjob howns.1
      exact h
    | exportDone hs => cases hs <;> exact says_nothing rfl rfl
  | post | access | requestExport | dropExport | downloadWrite | downloadExit | packageWrite
  | packageExit | exportWrite | exportExit =>
    exact says_nothing (told_of_not_handle h nofun) rfl
  | restart => exact absurd rfl ha

end Machine

namespace Daemon

variable {cfg : DaemonConfig} {disk : Disk} {d d' : Daemon}

/-- The statuses of a key that a step of a run sends. -/
def sentBy (hex : String) (t : Transition Daemon Action) : List StreamStatus :=
  match t.action with
  | .work _ => statusesOf hex t.post.machine.told
  | .playbackPost _ _ | .dashGet _ _ | .downloadGet _ _ _ | .deliver => []

/-- The statuses of a key that a step of a run brings to the listener. -/
def heardBy (hex : String) (t : Transition Daemon Action) : List StreamStatus :=
  match t.action with
  | .deliver => statusesOf hex (statuses (t.pre.toHttp.take 1))
  | .playbackPost _ _ | .dashGet _ _ | .downloadGet _ _ _ | .work _ => []

/-- All the statuses that are sent of a key, oldest first. -/
def sent (hex : String) (tr : List (Transition Daemon Action)) : List StreamStatus :=
  tr.reverse.flatMap (sentBy hex)

def heardOf (hex : String) (tr : List (Transition Daemon Action)) : List StreamStatus :=
  tr.reverse.flatMap (heardBy hex)

theorem sent_cons (hex : String) (t : Transition Daemon Action)
    (tr : List (Transition Daemon Action)) : sent hex (t :: tr) = sent hex tr ++ sentBy hex t := by
  simp [sent]

theorem heardOf_cons (hex : String) (t : Transition Daemon Action)
    (tr : List (Transition Daemon Action)) :
    heardOf hex (t :: tr) = heardOf hex tr ++ heardBy hex t := by
  simp [heardOf]

/-- Statuses are heard in the order in which they are sent. -/
theorem fifo_step {a : Action} (h : step cfg a d = some d') (hex : String) :
    statusesOf hex (statuses d.toHttp) ++ sentBy hex ⟨d, a, d'⟩ =
      heardBy hex ⟨d, a, d'⟩ ++ statusesOf hex (statuses d'.toHttp) := by
  have deliver : ∀ s q, d.toHttp = s :: q → a = .deliver → d'.toHttp = q →
      statusesOf hex (statuses d.toHttp) ++ sentBy hex ⟨d, a, d'⟩ =
        heardBy hex ⟨d, a, d'⟩ ++ statusesOf hex (statuses d'.toHttp) := by
    intro s q hq ha hq'
    have hsplit : statuses d.toHttp = statuses (d.toHttp.take 1) ++ statuses q := by
      rw [← statuses_append, hq]
      rfl
    rw [hsplit, statusesOf_append, ha, hq']
    exact List.append_nil _
  cases stepped h with
  | postRejected | posted | dashGet | downloadRejected | accepted => exact List.append_nil _
  | heard hq | unmatched hq | answered hq => exact deliver _ _ hq rfl rfl
  | worked hb hs =>
    rw [statuses_append, statusesOf_append]
    rfl

theorem fifo {tr : List (Transition Daemon Action)} (h : (system cfg).Run (start disk) tr d)
    (hex : String) : sent hex tr = heardOf hex tr ++ statusesOf hex (statuses d.toHttp) := by
  induction h with
  | nil => rfl
  | next hr hs ih =>
    rw [sent_cons, heardOf_cons, ih, List.append_assoc, List.append_assoc, fifo_step hs hex]

/-- Every step says a word that leads from the old phase of a key to its new one. -/
theorem leads_step {a : Action} (hr : (system cfg).Reachable (start disk) d)
    (h : step cfg a d = some d') (k : PlaybackKey) :
    Leads (d.machine.phase k) (sentBy k.hex ⟨d, a, d'⟩) (d'.machine.phase k) := by
  have ho := Machine.ownership (machine_reachable hr)
  have quiet : a.works = false → Leads (d.machine.phase k) [] (d'.machine.phase k) := by
    intro ha
    rcases machine_quiet h ha with hm | ⟨b, hin, hb, hs⟩
    · rw [hm]
      exact .nil _
    · have hsays := Machine.says_step (mirrors hr) ho hb hs k
      rw [Machine.told_of_not_handle hs (by rintro env rfl; cases hin)] at hsays
      exact hsays
  cases a with
  | playbackPost | dashGet | downloadGet | deliver => exact quiet rfl
  | work b =>
    obtain ⟨hb, hs⟩ := machine_work h
    exact Machine.says_step (mirrors hr) ho (by rintro rfl; cases hb) hs k

theorem leads_run {tr : List (Transition Daemon Action)}
    (h : (system cfg).Run (start disk) tr d) (k : PlaybackKey) :
    Leads .idle (sent k.hex tr) (d.machine.phase k) := by
  induction h with
  | nil => exact .nil _
  | next hr hs ih =>
    rw [sent_cons]
    exact ih.append (leads_step hr.reachable hs k)

/-- The table holds what was heard last. -/
theorem statusCache_eq_getLast {tr : List (Transition Daemon Action)}
    (h : (system cfg).Run (start disk) tr d) (hex : String) :
    d.listener.statusCache.lookup hex = (heardOf hex tr).getLast? := by
  induction h with
  | nil => rfl
  | @next tr d d' a hr hs ih =>
    rw [heardOf_cons]
    have same : heardBy hex ⟨d, a, d'⟩ = [] →
        d'.listener.statusCache = d.listener.statusCache →
        d'.listener.statusCache.lookup hex =
          (heardOf hex tr ++ heardBy hex ⟨d, a, d'⟩).getLast? := by
      intro hby hc
      rw [hby, hc, List.append_nil, ih]
    cases stepped hs with
    | postRejected | posted | dashGet | downloadRejected | accepted | worked =>
      exact same rfl rfl
    | @heard keyHex url status q hq =>
      have hby : ∀ d', heardBy hex ⟨d, .deliver, d'⟩ = if keyHex = hex then [status] else [] := by
        intro d'
        simp only [heardBy, hq]
        exact statusesOf_map hex keyHex [status]
      rw [hby]
      simp only [Listener.onStatusChanged, Table.lookup_insert_eq]
      by_cases hk : keyHex = hex
      · rw [if_pos hk, if_pos hk.symm]
        simp
      · rw [if_neg hk, if_neg (Ne.symm hk), ih, List.append_nil]
    | unmatched hq hp =>
      refine same ?_ rfl
      simp only [heardBy, hq]
      rfl
    | answered hq hp hm =>
      refine same ?_ rfl
      simp only [heardBy, hq]
      rfl

/-- In every run, what is sent of a key leads to the phase of its job; the listener has
heard a beginning of it, which is a word of the grammar as well, and polls are answered
from the last status heard. -/
theorem statuses_follow {tr : List (Transition Daemon Action)}
    (h : (system cfg).Run (start disk) tr d) (k : PlaybackKey) :
    d.machine.phase k ∈ statusGrammar.eval (sent k.hex tr) ∧
      sent k.hex tr = heardOf k.hex tr ++ statusesOf k.hex (statuses d.toHttp) ∧
      heardOf k.hex tr ∈ statusGrammar.accepts ∧
      d.listener.statusCache.lookup k.hex = (heardOf k.hex tr).getLast? := by
  have hleads := leads_run h k
  have hfifo := fifo h k.hex
  refine ⟨hleads, hfifo, ?_, statusCache_eq_getLast h k.hex⟩
  rw [hfifo] at hleads
  exact mem_accepts_of_append hleads

namespace Sample

/-- A recording that was downloaded, but not packaged. -/
def downloaded : Disk where
  raw := AList.insert "00000000000000aa.mp4" Machine.Sample.manifest ∅

/-- A second POST finds the manifest of the packaging run that is under way. -/
def earlyPost : List Action :=
  [post, .work (.handle Machine.Sample.env),
    .work (.packageWrite (Machine.Sample.packager 0 "00000000000000aa") (Machine.Sample.package 0)),
    post, .work (.handle Machine.Sample.env), .deliver, .deliver]

end Sample

theorem statuses_follow_earlyPost :
    ∃ h : ((system Sample.config).replay (start Sample.downloaded) Sample.earlyPost).isSome = true,
      let r := ((system Sample.config).replay (start Sample.downloaded) Sample.earlyPost).get h
      sent "00000000000000aa" r.1 = [.pending, .packaging, .ready] ∧
        heardOf "00000000000000aa" r.1 = [.pending, .packaging] ∧
        r.2.machine.phase ⟨"00000000000000aa"⟩ ∈
          statusGrammar.eval (sent "00000000000000aa" r.1) ∧
        sent "00000000000000aa" r.1 = heardOf "00000000000000aa" r.1 ++
          statusesOf "00000000000000aa" (statuses r.2.toHttp) ∧
        heardOf "00000000000000aa" r.1 ∈ statusGrammar.accepts ∧
        r.2.listener.statusCache.lookup "00000000000000aa" =
          (heardOf "00000000000000aa" r.1).getLast? :=
  ⟨by decide, by decide, by decide, statuses_follow (System.run_get _) ⟨"00000000000000aa"⟩⟩

end Daemon

end VisionPlayback
