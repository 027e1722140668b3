import VisionPlayback.Lib.Settling
import VisionPlayback.Processor.Machine

/-!
# The download thread

`HCNetSDKDownloader::run` step by step, over an SDK that may answer anything, while
other threads may set the cancel flag between any two steps. One step of the thread
is a call into the SDK or a test of the flag, with the callbacks up to the next one.
-/

namespace VisionPlayback

open Lib

structure NetDvrTime where
  dwYear : UInt32 := 0
  dwMonth : UInt32 := 0
  dwDay : UInt32 := 0
  dwHour : UInt32 := 0
  dwMinute : UInt32 := 0
  dwSecond : UInt32 := 0
  deriving DecidableEq

def HCNetSDKTimeMapper.toSdk (t : PlaybackTime) : NetDvrTime where
  dwYear := t.year.toUInt32
  dwMonth := t.month.toUInt32
  dwDay := t.day.toUInt32
  dwHour := t.hour.toUInt32
  dwMinute := t.minute.toUInt32
  dwSecond := t.second.toUInt32

/-- The casts keep the low bits. -/
def HCNetSDKTimeMapper.toDomain (t : NetDvrTime) : PlaybackTime where
  year := t.dwYear.toUInt16
  month := t.dwMonth.toUInt8
  day := t.dwDay.toUInt8
  hour := t.dwHour.toUInt8
  minute := t.dwMinute.toUInt8
  second := t.dwSecond.toUInt8

/-- Every time of the domain comes back from the SDK. -/
@[simp] theorem HCNetSDKTimeMapper.toDomain_toSdk (t : PlaybackTime) : toDomain (toSdk t) = t := by
  simp [toDomain, toSdk]

structure NetDvrPlayCond where
  dwChannel : UInt32
  struStartTime : NetDvrTime
  struStopTime : NetDvrTime
  deriving DecidableEq

/-- `onProgress` and `onFinished` tell whether the callback is set. -/
structure HCNetSDKDownloader where
  request : PlaybackRequest
  outputPath : String
  onProgress : Bool := false
  onFinished : Bool := false

namespace HCNetSDKDownloader

/-- Calls of the SDK, with their results, and of the callbacks. -/
inductive Call
  | getFileByTime (token : Int32) (path : String) (cond : NetDvrPlayCond) (hDl : Int32)
  | playStart (hDl : Int32) (ok : Bool)
  | getDownloadPos (hDl pos : Int32)
  | stopGetFile (hDl : Int32)
  | onProgress (percent : Int32)
  | onFinished (ok : Bool) (error : String)
  deriving DecidableEq

/-- What the thread does next, with the local variables that are alive. -/
inductive Place
  | getFileByTime
  | playStart (hDl : Int32)
  /-- The test of the loop. -/
  | test (hDl pos : Int32)
  | getDownloadPos (hDl : Int32)
  | stopGetFile (hDl pos : Int32)
  | finalTest (pos : Int32)
  | ended
  deriving DecidableEq

structure Thread where
  place : Place := .getFileByTime
  cancelled : Bool := false
  /-- In the order they were made. -/
  calls : List Call := []
  deriving DecidableEq

inductive Action
  /-- Another thread sets the flag: `cancel` or the destructor. -/
  | cancel
  | getFileByTime (hDl : Int32) (lastError : UInt32)
  | playStart (ok : Bool) (lastError : UInt32)
  | test
  | getDownloadPos (pos : Int32)
  | stopGetFile
  | finalTest (lastError : UInt32)
  deriving DecidableEq

variable (dl : HCNetSDKDownloader)

def cond : NetDvrPlayCond where
  dwChannel := dl.request.channel.id.toUInt32
  struStartTime := HCNetSDKTimeMapper.toSdk dl.request.range.begin
  struStopTime := HCNetSDKTimeMapper.toSdk dl.request.range.end_

def getFileByTimeCall (hDl : Int32) : Call :=
  .getFileByTime (.ofInt dl.request.token) dl.outputPath dl.cond hDl

/-- A call of a callback, if it is set. -/
def progressed (percent : Int32) : List Call := if dl.onProgress then [.onProgress percent] else []

def finished (ok : Bool) (error : String) : List Call :=
  if dl.onFinished then [.onFinished ok error] else []

def getFileByTimeError (lastError : UInt32) : String :=
  "GetFileByTime failed (error " ++ toString lastError.toNat ++ ")"

def playBackControlError (lastError : UInt32) : String :=
  "PlayBackControl failed (error " ++ toString lastError.toNat ++ ")"

/-- What the final test reports. -/
def verdict (cancelled : Bool) (pos : Int32) (lastError : UInt32) : Bool × String :=
  if cancelled then (false, "Download cancelled.")
  else if pos = 100 then (true, "")
  else (false, "Download error (pos=" ++ toString pos.toInt ++ ", error " ++
    toString lastError.toNat ++ ")")

/-- One step of `run`, or of another thread. -/
def step : Action → Thread → Option Thread
  | .cancel, t => some { t with cancelled := true }
  | .getFileByTime hDl lastError, t =>
    match t.place with
    | .getFileByTime =>
      if hDl < 0 then
        some { t with
          place := .ended
          calls := t.calls ++ dl.getFileByTimeCall hDl ::
            dl.finished false (getFileByTimeError lastError) }
      else some { t with place := .playStart hDl, calls := t.calls ++ [dl.getFileByTimeCall hDl] }
    | _ => none
  | .playStart ok lastError, t =>
    match t.place with
    | .playStart hDl =>
      if !ok then
        some { t with
          place := .ended
          calls := t.calls ++ .playStart hDl false :: .stopGetFile hDl ::
            dl.finished false (playBackControlError lastError) }
      else some { t with place := .test hDl 0, calls := t.calls ++ [.playStart hDl true] }
    | _ => none
  | .test, t =>
    match t.place with
    | .test hDl pos =>
      some { t with place := if t.cancelled then .stopGetFile hDl pos else .getDownloadPos hDl }
    | _ => none
  | .getDownloadPos pos, t =>
    match t.place with
    | .getDownloadPos hDl =>
      if pos < 0 ∨ 100 < pos then
        some { t with
          place := .stopGetFile hDl pos
          calls := t.calls ++ [.getDownloadPos hDl pos] }
      else
        -- the pause of a second is not a step
        some { t with
          place := if pos = 100 then .stopGetFile hDl pos else .test hDl pos
          calls := t.calls ++ .getDownloadPos hDl pos :: dl.progressed pos }
    | _ => none
  | .stopGetFile, t =>
    match t.place with
    | .stopGetFile hDl pos =>
      some { t with place := .finalTest pos, calls := t.calls ++ [.stopGetFile hDl] }
    | _ => none
  | .finalTest lastError, t =>
    match t.place with
    | .finalTest pos =>
      let (ok, error) := verdict t.cancelled pos lastError
      some { t with place := .ended, calls := t.calls ++ dl.finished ok error }
    | _ => none

def system : System Thread Action := ⟨step dl⟩

/-! ## What each step does -/

/-- The samples that are passed on as percentages. -/
def inRange (pos : Int32) : Bool := 0 ≤ pos && pos ≤ 100

theorem inRange_eq_false_iff {pos : Int32} : inRange pos = false ↔ pos < 0 ∨ 100 < pos := by
  rw [inRange, Bool.and_eq_false_iff, decide_eq_false_iff_not, decide_eq_false_iff_not,
    Int32.not_le, Int32.not_le]

/-- A sample that was taken, with its progress callback. -/
def poll (hDl pos : Int32) : List Call :=
  .getDownloadPos hDl pos :: if inRange pos then dl.progressed pos else []

inductive Stepped (t : Thread) : Action → Thread → Prop
  | cancelled : Stepped t .cancel { t with cancelled := true }
  | openFailed {hDl : Int32} {lastError : UInt32} (hplace : t.place = .getFileByTime)
      (hneg : hDl < 0) : Stepped t (.getFileByTime hDl lastError)
        { t with
          place := .ended
          calls := t.calls ++ dl.getFileByTimeCall hDl ::
            dl.finished false (getFileByTimeError lastError) }
  | opened {hDl : Int32} {lastError : UInt32} (hplace : t.place = .getFileByTime)
      (hpos : ¬ hDl < 0) : Stepped t (.getFileByTime hDl lastError)
        { t with place := .playStart hDl, calls := t.calls ++ [dl.getFileByTimeCall hDl] }
  | playFailed {hDl : Int32} {lastError : UInt32} (hplace : t.place = .playStart hDl) :
      Stepped t (.playStart false lastError)
        { t with
          place := .ended
          calls := t.calls ++ .playStart hDl false :: .stopGetFile hDl ::
            dl.finished false (playBackControlError lastError) }
  | played {hDl : Int32} {lastError : UInt32} (hplace : t.place = .playStart hDl) :
      Stepped t (.playStart true lastError)
        { t with place := .test hDl 0, calls := t.calls ++ [.playStart hDl true] }
  | testedStop {hDl pos : Int32} (hplace : t.place = .test hDl pos) (hc : t.cancelled = true) :
      Stepped t .test { t with place := .stopGetFile hDl pos }
  | testedMore {hDl pos : Int32} (hplace : t.place = .test hDl pos) (hc : t.cancelled = false) :
      Stepped t .test { t with place := .getDownloadPos hDl }
  | sampledLast {hDl pos : Int32} (hplace : t.place = .getDownloadPos hDl)
      (hlast : inRange pos = false ∨ pos = 100) : Stepped t (.getDownloadPos pos)
        { t with place := .stopGetFile hDl pos, calls := t.calls ++ dl.poll hDl pos }
  | sampledMore {hDl pos : Int32} (hplace : t.place = .getDownloadPos hDl)
      (hrange : inRange pos = true) (hne : pos ≠ 100) : Stepped t (.getDownloadPos pos)
        { t with place := .test hDl pos, calls := t.calls ++ dl.poll hDl pos }
  | stopped {hDl pos : Int32} (hplace : t.place = .stopGetFile hDl pos) :
      Stepped t .stopGetFile
        { t with place := .finalTest pos, calls := t.calls ++ [.stopGetFile hDl] }
  | finalTested {pos : Int32} {lastError : UInt32} (hplace : t.place = .finalTest pos) :
      Stepped t (.finalTest lastError)
        { t with
          place := .ended
          calls := t.calls ++ dl.finished (verdict t.cancelled pos lastError).1
            (verdict t.cancelled pos lastError).2 }

variable {dl} {t t' : Thread} {a : Action}

theorem stepped_getDownloadPos {hDl pos : Int32} (hplace : t.place = .getDownloadPos hDl)
    (h : step dl (.getDownloadPos pos) t = some t') : Stepped dl t (.getDownloadPos pos) t' := by
  simp only [step, hplace] at h
  split at h
  · next hout =>
    obtain rfl := Option.some.inj h
    have hrange : inRange pos = false := inRange_eq_false_iff.mpr hout
    have hpoll : [Call.getDownloadPos hDl pos] = dl.poll hDl pos := by simp [poll, hrange]
    rw [hpoll]
    exact .sampledLast hplace (Or.inl hrange)
  · next hin =>
    obtain rfl := Option.some.inj h
    have hrange : inRange pos = true := by
      rw [← Bool.not_eq_false, inRange_eq_false_iff]
      exact hin
    have hpoll : .getDownloadPos hDl pos :: dl.progressed pos = dl.poll hDl pos := by
      simp [poll, hrange]
    rw [hpoll]
    by_cases hfull : pos = 100
    · rw [if_pos hfull]
      exact .sampledLast hplace (Or.inr hfull)
    · rw [if_neg hfull]
      exact .sampledMore hplace hrange hfull

theorem stepped (h : step dl a t = some t') : Stepped dl t a t' := by
  cases a with
  | cancel =>
    obtain rfl := Option.some.inj h
    exact .cancelled
  | getFileByTime hDl lastError =>
    cases hplace : t.place with
    | getFileByTime =>
      simp only [step, hplace] at h
      split at h
      · next hneg =>
        obtain rfl := Option.some.inj h
        exact .openFailed hplace hneg
      · next hpos =>
        obtain rfl := Option.some.inj h
        exact .opened hplace hpos
    | _ => simp [step, hplace] at h
  | playStart ok lastError =>
    cases hplace : t.place with
    | playStart hDl =>
      simp only [step, hplace] at h
      cases ok with
      | false =>
        obtain rfl := Option.some.inj h
        exact .playFailed hplace
      | true =>
        obtain rfl := Option.some.inj h
        exact .played hplace
    | _ => simp [step, hplace] at h
  | test =>
    cases hplace : t.place with
    | test hDl pos =>
      simp only [step, hplace] at h
      obtain rfl := Option.some.inj h
      by_cases hc : t.cancelled = true
      · rw [if_pos hc]
        exact .testedStop hplace hc
      · rw [if_neg hc]
        exact .testedMore hplace (Bool.eq_false_iff.mpr hc)
    | _ => simp [step, hplace] at h
  | getDownloadPos pos =>
    cases hplace : t.place with
    | getDownloadPos hDl => exact stepped_getDownloadPos hplace h
    | _ => simp [step, hplace] at h
  | stopGetFile =>
    cases hplace : t.place with
    | stopGetFile hDl pos =>
      simp only [step, hplace] at h
      obtain rfl := Option.some.inj h
      exact .stopped hplace
    | _ => simp [step, hplace] at h
  | finalTest lastError =>
    cases hplace : t.place with
    | finalTest pos =>
      simp only [step, hplace] at h
      obtain rfl := Option.some.inj h
      exact .finalTested hplace
    | _ => simp [step, hplace] at h

/-! ## What the calls of a run look like -/

/-- The calls of the loop. -/
def polls (dl : HCNetSDKDownloader) (hDl : Int32) (samples : List Int32) : List Call :=
  samples.flatMap (dl.poll hDl)

/-- The calls so far, when the thread holds a handle and has taken some samples. -/
def polled (dl : HCNetSDKDownloader) (hDl : Int32) (samples : List Int32) : List Call :=
  dl.getFileByTimeCall hDl :: .playStart hDl true :: dl.polls hDl samples

theorem polled_append (hDl : Int32) (samples : List Int32) (pos : Int32) :
    dl.polled hDl (samples ++ [pos]) = dl.polled hDl samples ++ dl.poll hDl pos := by
  simp [polled, polls]

/-- The three ways in which `run` ends; `tested` are the flags that final tests have read. -/
inductive Ending (dl : HCNetSDKDownloader) (tested : List Bool) : List Call → Prop
  | openFailed {hDl : Int32} (lastError : UInt32) (hneg : hDl < 0) (htested : tested = []) :
      Ending dl tested
        (dl.getFileByTimeCall hDl :: dl.finished false (getFileByTimeError lastError))
  | playFailed {hDl : Int32} (lastError : UInt32) (hpos : ¬ hDl < 0) (htested : tested = []) :
      Ending dl tested (dl.getFileByTimeCall hDl :: .playStart hDl false :: .stopGetFile hDl ::
        dl.finished false (playBackControlError lastError))
  | tested {hDl : Int32} (samples : List Int32) (cancelled : Bool) (lastError : UInt32)
      (hpos : ¬ hDl < 0) (htested : tested = [cancelled]) :
      Ending dl tested (dl.polled hDl samples ++ .stopGetFile hDl ::
        dl.finished (verdict cancelled (samples.getLast?.getD 0) lastError).1
          (verdict cancelled (samples.getLast?.getD 0) lastError).2)

/-- What has been called when the thread is at a place. -/
def Follows (dl : HCNetSDKDownloader) (tested : List Bool) (calls : List Call) : Place → Prop
  | .getFileByTime => tested = [] ∧ calls = []
  | .playStart hDl => tested = [] ∧ ¬ hDl < 0 ∧ calls = [dl.getFileByTimeCall hDl]
  | .test hDl pos | .stopGetFile hDl pos => tested = [] ∧ ¬ hDl < 0 ∧
      ∃ samples, calls = dl.polled hDl samples ∧ pos = samples.getLast?.getD 0
  | .getDownloadPos hDl => tested = [] ∧ ¬ hDl < 0 ∧ ∃ samples, calls = dl.polled hDl samples
  | .finalTest pos => tested = [] ∧ ∃ hDl samples, ¬ hDl < 0 ∧
      calls = dl.polled hDl samples ++ [.stopGetFile hDl] ∧ pos = samples.getLast?.getD 0
  | .ended => Ending dl tested calls

/-- One more sample, and the calls are those of a loop that has taken it. -/
theorem Follows.sampled {tested : List Bool} {calls : List Call} {hDl : Int32}
    (h : Follows dl tested calls (.getDownloadPos hDl)) (pos : Int32) :
    Follows dl tested (calls ++ dl.poll hDl pos) (.test hDl pos) := by
  obtain ⟨htested, hpos, samples, hcalls⟩ := h
  refine ⟨htested, hpos, samples ++ [pos], ?_, ?_⟩
  · rw [polled_append, ← hcalls]
  · simp

/-- The flag, when the step is a final test. -/
def finalTest? (u : Transition Thread Action) : Option Bool :=
  match u.action with
  | .finalTest _ => some u.pre.cancelled
  | _ => none

theorem Follows.next {tested : List Bool} (h : Follows dl tested t.calls t.place)
    (hs : Stepped dl t a t') :
    Follows dl ((finalTest? ⟨t, a, t'⟩).toList ++ tested) t'.calls t'.place := by
  cases hs with
  | cancelled => exact h
  | @openFailed hDl lastError hplace hneg =>
    rw [hplace] at h
    obtain ⟨htested, hcalls⟩ := h
    show Ending dl tested _
    rw [hcalls]
    exact .openFailed lastError hneg htested
  | @opened hDl lastError hplace hpos =>
    rw [hplace] at h
    obtain ⟨htested, hcalls⟩ := h
    refine ⟨htested, hpos, ?_⟩
    show t.calls ++ _ = _
    rw [hcalls]
    rfl
  | @playFailed hDl lastError hplace =>
    rw [hplace] at h
    obtain ⟨htested, hpos, hcalls⟩ := h
    show Ending dl tested _
    rw [hcalls]
    exact .playFailed lastError hpos htested
  | @played hDl lastError hplace =>
    rw [hplace] at h
    obtain ⟨htested, hpos, hcalls⟩ := h
    refine ⟨htested, hpos, [], ?_, rfl⟩
    show t.calls ++ _ = _
    rw [hcalls]
    rfl
  | @testedStop hDl pos hplace hc =>
    rw [hplace] at h
    exact h
  | @testedMore hDl pos hplace hc =>
    rw [hplace] at h
    obtain ⟨htested, hpos, samples, hcalls, -⟩ := h
    exact ⟨htested, hpos, samples, hcalls⟩
  | @sampledLast hDl pos hplace hlast =>
    rw [hplace] at h
    exact h.sampled pos
  | @sampledMore hDl pos hplace hrange hne =>
    rw [hplace] at h
    exact h.sampled pos
  | @stopped hDl pos hplace =>
    rw [hplace] at h
    obtain ⟨htested, hpos, samples, hcalls, hlast⟩ := h
    refine ⟨htested, hDl, samples, hpos, ?_, hlast⟩
    show t.calls ++ _ = _
    rw [hcalls]
  | @finalTested pos lastError hplace =>
    rw [hplace] at h
    obtain ⟨htested, hDl, samples, hpos, hcalls, hlast⟩ := h
    show Ending dl (t.cancelled :: tested) _
    rw [hcalls, hlast, htested, List.append_assoc]
    exact .tested samples t.cancelled lastError hpos rfl

variable {tr : List (Transition Thread Action)}

theorem follows (hr : (system dl).Run {} tr t) :
    Follows dl (tr.filterMap finalTest?) t.calls t.place := by
  induction hr with
  | nil => exact ⟨rfl, rfl⟩
  | @next tr t t' a hr hs ih =>
    have hnext := ih.next (stepped hs)
    rw [List.filterMap_cons]
    cases hf : finalTest? ⟨t, a, t'⟩ with
    | none => rwa [hf] at hnext
    | some c => rwa [hf] at hnext

/-! ## What the calls report -/

def Call.report? : Call → Option (Bool × String)
  | .onFinished ok error => some (ok, error)
  | _ => none

def Call.percent? : Call → Option Int32
  | .onProgress percent => some percent
  | _ => none

def Call.sample? : Call → Option Int32
  | .getDownloadPos _ pos => some pos
  | _ => none

def Call.stopped? : Call → Option Int32
  | .stopGetFile hDl => some hDl
  | _ => none

/-- A handle is obtained unless it is negative. -/
def Call.handle? : Call → Option Int32
  | .getFileByTime _ _ _ hDl => if hDl < 0 then none else some hDl
  | _ => none

namespace Thread

def reports (t : Thread) : List (Bool × String) := t.calls.filterMap (·.report?)

def percentages (t : Thread) : List Int32 := t.calls.filterMap (·.percent?)

def samples (t : Thread) : List Int32 := t.calls.filterMap (·.sample?)

def stops (t : Thread) : List Int32 := t.calls.filterMap (·.stopped?)

def handles (t : Thread) : List Int32 := t.calls.filterMap (·.handle?)

end Thread

theorem filterMap_polls_eq_nil {β : Type} {f : Call → Option β}
    (hsample : ∀ hDl pos, f (.getDownloadPos hDl pos) = none)
    (hpercent : ∀ percent, f (.onProgress percent) = none) (hDl : Int32) (samples : List Int32) :
    (dl.polls hDl samples).filterMap f = [] := by
  rw [polls, List.filterMap_flatMap, List.flatMap_eq_nil_iff]
  intro pos _
  rw [poll, List.filterMap_cons_none (hsample hDl pos)]
  unfold progressed
  split
  · split
    · exact List.filterMap_cons_none (hpercent pos)
    · rfl
  · rfl

theorem filterMap_polled {β : Type} {f : Call → Option β} {hDl : Int32}
    (hplay : f (.playStart hDl true) = none) (samples : List Int32) (rest : List Call) :
    (dl.polled hDl samples ++ rest).filterMap f =
      (f (dl.getFileByTimeCall hDl)).toList ++ (dl.polls hDl samples).filterMap f ++
        rest.filterMap f := by
  rw [polled, List.cons_append, List.cons_append, List.filterMap_cons,
    List.filterMap_cons_none hplay, List.filterMap_append]
  cases f (dl.getFileByTimeCall hDl) with
  | none => rfl
  | some b => rfl

theorem filterMap_sample_polls (hDl : Int32) (samples : List Int32) :
    (dl.polls hDl samples).filterMap (·.sample?) = samples := by
  have hpoll : ∀ pos, (dl.poll hDl pos).filterMap (·.sample?) = [pos] := by
    intro pos
    unfold poll progressed
    split
    · split <;> rfl
    · rfl
  rw [polls, List.filterMap_flatMap]
  simp [hpoll]

theorem filterMap_percent_polls (hprogress : dl.onProgress = true) (hDl : Int32)
    (samples : List Int32) :
    (dl.polls hDl samples).filterMap (·.percent?) = samples.filter inRange := by
  induction samples with
  | nil => rfl
  | cons pos samples ih =>
    have hpoll : (dl.poll hDl pos).filterMap (·.percent?) = if inRange pos then [pos] else [] := by
      unfold poll progressed
      rw [if_pos hprogress]
      split <;> rfl
    have hcons : dl.polls hDl (pos :: samples) = dl.poll hDl pos ++ dl.polls hDl samples := rfl
    rw [hcons, List.filterMap_append, hpoll, ih, List.filter_cons]
    split <;> rfl

/-- What is promised of a run that has ended. -/
structure Truthful (tr : List (Transition Thread Action)) (t : Thread) : Prop where
  once : ∃ report, t.reports = [report]
  ok : ∀ report ∈ t.reports, report.1 = true ↔ t.samples.getLast? = some 100 ∧
    ∃ u ∈ tr, ∃ lastError, u.action = .finalTest lastError ∧ u.pre.cancelled = false
  percentages : ∀ percent ∈ t.percentages, 0 ≤ percent ∧ percent ≤ 100
  inOrder : t.percentages = t.samples.filter fun pos => 0 ≤ pos ∧ pos ≤ 100
  stopped : ∀ hDl ∈ t.handles, t.stops = [hDl]
  unopened : t.handles = [] → t.stops = []

theorem mem_finalTests {c : Bool} : c ∈ tr.filterMap finalTest? ↔
    ∃ u ∈ tr, ∃ lastError, u.action = .finalTest lastError ∧ u.pre.cancelled = c := by
  rw [List.mem_filterMap]
  constructor
  · rintro ⟨⟨pre, a, post⟩, hu, hf⟩
    cases a with
    | finalTest lastError => exact ⟨_, hu, lastError, rfl, Option.some.inj hf⟩
    | _ => cases hf
  · rintro ⟨u, hu, lastError, ha, hc⟩
    refine ⟨u, hu, ?_⟩
    rw [finalTest?, ha, hc]

theorem verdict_ok_iff {cancelled : Bool} {pos : Int32} {lastError : UInt32} :
    (verdict cancelled pos lastError).1 = true ↔ pos = 100 ∧ cancelled = false := by
  unfold verdict
  cases cancelled with
  | true => simp
  | false =>
    by_cases hfull : pos = 100
    · simp [hfull]
    · simp [hfull]

theorem getLast?_getD_eq_iff {samples : List Int32} :
    samples.getLast?.getD 0 = 100 ↔ samples.getLast? = some 100 := by
  cases samples.getLast? with
  | none => simp
  | some pos => simp

/-- What the calls of a run have come to at its end. -/
structure ComesTo (tested : List Bool) (t : Thread) (ok : Bool) (error : String)
    (handle : Option Int32) : Prop where
  reports : t.reports = [(ok, error)]
  ok : ok = true ↔ t.samples.getLast? = some 100 ∧ false ∈ tested
  percentages : t.percentages = t.samples.filter inRange
  handles : t.handles = handle.toList
  stops : t.stops = handle.toList

theorem Ending.comesTo {tested : List Bool} (hprogress : dl.onProgress = true)
    (hfinished : dl.onFinished = true) (h : Ending dl tested t.calls) :
    ∃ ok error handle, ComesTo tested t ok error handle := by
  have hone : ∀ ok error, dl.finished ok error = [.onFinished ok error] :=
    fun _ _ => if_pos hfinished
  generalize hcalls : t.calls = calls at h
  cases h with
  | @openFailed hDl lastError hneg htested =>
    rw [hone] at hcalls
    refine ⟨false, getFileByTimeError lastError, none, ?_⟩
    constructor
    · rw [Thread.reports, hcalls]
      rfl
    · simp [htested]
    · rw [Thread.percentages, Thread.samples, hcalls]
      rfl
    · rw [Thread.handles, hcalls]
      simp [getFileByTimeCall, Call.handle?, hneg]
    · rw [Thread.stops, hcalls]
      rfl
  | @playFailed hDl lastError hpos htested =>
    rw [hone] at hcalls
    refine ⟨false, playBackControlError lastError, some hDl, ?_⟩
    constructor
    · rw [Thread.reports, hcalls]
      rfl
    · simp [htested]
    · rw [Thread.percentages, Thread.samples, hcalls]
      rfl
    · rw [Thread.handles, hcalls]
      simp [getFileByTimeCall, Call.handle?, hpos]
    · rw [Thread.stops, hcalls]
      rfl
  | @tested hDl samples cancelled lastError hpos htested =>
    rw [hone] at hcalls
    have hsamples : t.samples = samples := by
      rw [Thread.samples, hcalls, filterMap_polled rfl, filterMap_sample_polls]
      exact List.append_nil _
    -- the loop neither opens nor stops nor reports
    have hquiet := @filterMap_polls_eq_nil dl
    refine ⟨(verdict cancelled (samples.getLast?.getD 0) lastError).1,
      (verdict cancelled (samples.getLast?.getD 0) lastError).2, some hDl, ?_⟩
    constructor
    · rw [Thread.reports, hcalls, filterMap_polled rfl, hquiet (fun _ _ => rfl) fun _ => rfl]
      rfl
    · rw [hsamples, htested, verdict_ok_iff, getLast?_getD_eq_iff, List.mem_singleton,
        eq_comm (a := cancelled)]
    · rw [hsamples, Thread.percentages, hcalls, filterMap_polled rfl,
        filterMap_percent_polls hprogress]
      exact List.append_nil _
    · rw [Thread.handles, hcalls, filterMap_polled rfl, hquiet (fun _ _ => rfl) fun _ => rfl]
      simp [getFileByTimeCall, Call.handle?, hpos]
    · rw [Thread.stops, hcalls, filterMap_polled rfl, hquiet (fun _ _ => rfl) fun _ => rfl]
      rfl

/-- **One report for each download**, and a truthful one. -/
theorem truthful (hprogress : dl.onProgress = true) (hfinished : dl.onFinished = true)
    (hr : (system dl).Run {} tr t) (hend : t.place = .ended) : Truthful tr t := by
  have hending := follows hr
  rw [hend] at hending
  obtain ⟨ok, error, handle, h⟩ := hending.comesTo hprogress hfinished
  have hrange : ∀ pos, inRange pos = decide (0 ≤ pos ∧ pos ≤ 100) :=
    fun pos => (Bool.decide_and _ _).symm
  constructor
  · exact ⟨_, h.reports⟩
  · intro report hmem
    rw [h.reports, List.mem_singleton] at hmem
    rw [hmem, h.ok, mem_finalTests]
  · intro percent hmem
    rw [h.percentages] at hmem
    have hin := (List.mem_filter.mp hmem).2
    rw [hrange] at hin
    exact of_decide_eq_true hin
  · rw [h.percentages]
    exact List.filter_congr fun pos _ => hrange pos
  · intro hDl hmem
    rw [h.handles, Option.mem_toList] at hmem
    rw [h.stops, Option.mem_def.mp hmem]
    rfl
  · intro hnone
    rw [h.stops, ← h.handles, hnone]

namespace Sample

def downloader : HCNetSDKDownloader where
  request := Machine.Sample.request "00000000000000aa"
  outputPath := "00000000000000aa.mp4"
  onProgress := true
  onFinished := true

/-- The flag is set after the last sample, before the final test. -/
def lateCancel : List Action :=
  [.getFileByTime 5 0, .playStart true 0, .test, .getDownloadPos 40, .test, .getDownloadPos 100,
    .cancel, .stopGetFile, .finalTest 0]

end Sample

theorem truthful_lateCancel :
    ∃ h : ((system Sample.downloader).replay {} Sample.lateCancel).isSome = true,
      Truthful (((system Sample.downloader).replay {} Sample.lateCancel).get h).1
        (((system Sample.downloader).replay {} Sample.lateCancel).get h).2 :=
  ⟨by decide, truthful rfl rfl (System.run_get (by decide)) (by decide)⟩

/-! ## The thread of a worker -/

/-- The downloader of a started worker, with both callbacks set. -/
def ofWorker (w : Downloader) : HCNetSDKDownloader where
  request := w.request
  outputPath := w.outputPath
  onProgress := true
  onFinished := true

/-! ## The destructor's join -/

/-- How many steps the thread has left at most, once the flag is set. -/
def remaining : Place → ℕ
  | .getFileByTime => 5
  | .playStart _ => 4
  | .getDownloadPos _ => 4
  | .test _ _ => 3
  | .stopGetFile _ _ => 2
  | .finalTest _ => 1
  | .ended => 0

/-- The steps of the thread itself. -/
def Action.own : Action → Bool
  | .cancel => false
  | _ => true

theorem remaining_lt (hs : Stepped dl t a t') (hc : t.cancelled = true) (hown : a.own = true) :
    remaining t'.place < remaining t.place := by
  cases hs with
  | cancelled => cases hown
  | testedMore hplace hc' =>
    rw [hc] at hc'
    cases hc'
  | openFailed hplace => simp [hplace, remaining]
  | opened hplace => simp [hplace, remaining]
  | playFailed hplace => simp [hplace, remaining]
  | played hplace => simp [hplace, remaining]
  | testedStop hplace => simp [hplace, remaining]
  | sampledLast hplace => simp [hplace, remaining]
  | sampledMore hplace => simp [hplace, remaining]
  | stopped hplace => simp [hplace, remaining]
  | finalTested hplace => simp [hplace, remaining]

theorem stays_cancelled (hs : Stepped dl t a t') (hc : t.cancelled = true) :
    t'.cancelled = true := by
  cases hs with
  | cancelled => rfl
  | _ => exact hc

/-- A thread that has not ended can go on, whatever the flag is. -/
theorem exists_own (hplace : t.place ≠ .ended) :
    ∃ a, a.own = true ∧ (step dl a t).isSome = true := by
  cases h : t.place with
  | getFileByTime => exact ⟨.getFileByTime 0 0, rfl, by simp [step, h]⟩
  | playStart hDl => exact ⟨.playStart true 0, rfl, by simp [step, h]⟩
  | test hDl pos => exact ⟨.test, rfl, by simp [step, h]⟩
  | getDownloadPos hDl => exact ⟨.getDownloadPos 0, rfl, by simp [step, h]⟩
  | stopGetFile hDl pos => exact ⟨.stopGetFile, rfl, by simp [step, h]⟩
  | finalTest pos => exact ⟨.finalTest 0, rfl, by simp [step, h]⟩
  | ended => exact absurd h hplace

/-- From a set flag on, the steps of the thread use up what it has left. -/
theorem settles (dl : HCNetSDKDownloader) :
    System.Settles (system dl) (fun _ => true) Action.own (fun t => t.cancelled = true)
      fun t => remaining t.place where
  keeps _ _ _ _ hc hs := stays_cancelled (stepped hs) hc
  le a t t' _ hc hs := by
    cases hown : a.own with
    | true => exact Nat.le_of_lt (remaining_lt (stepped hs) hc hown)
    | false =>
      cases a with
      | cancel =>
        obtain rfl := Option.some.inj hs
        exact Nat.le_refl _
      | getFileByTime | playStart | test | getDownloadPos | stopGetFile | finalTest => cases hown
  lt _ _ _ hown hc hs := remaining_lt (stepped hs) hc hown
  quiet_of_drains _ _ := rfl

theorem ended_of_stuck (h : (system dl).Stuck Action.own t) : t.place = .ended := by
  by_contra hplace
  obtain ⟨a, hown, hsome⟩ : ∃ a, a.own = true ∧ (step dl a t).isSome = true := exists_own hplace
  have hnone : step dl a t = none := h a hown
  rw [hnone] at hsome
  cases hsome

end HCNetSDKDownloader

end VisionPlayback
