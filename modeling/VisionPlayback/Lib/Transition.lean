import Mathlib.Logic.Relation

/-!
# Executable labelled transition systems

A system is a partial step function on labelled actions; every choice of the
environment is part of the label, so a run is replayed by folding the step over
its labels. A run is kept as the list of its transitions, newest first, so that
a property of a run is a property of its members.
-/

namespace Lib

/-- A system with states `σ` and actions `α`. `none` means the action cannot occur. -/
structure System (σ α : Type*) where
  step : α → σ → Option σ

/-- One step of a run, with the states on both sides. -/
structure Transition (σ α : Type*) where
  pre : σ
  action : α
  post : σ

namespace System

variable {σ τ α β : Type*} (L : System σ α)

/-- Runs from `init`: the transitions taken, newest first, and the state reached. -/
inductive Run (init : σ) : List (Transition σ α) → σ → Prop
  | nil : Run init [] init
  | next {tr : List (Transition σ α)} {s s' : σ} {a : α} :
      Run init tr s → L.step a s = some s' → Run init (⟨s, a, s'⟩ :: tr) s'

def Reachable (init s : σ) : Prop := ∃ tr, L.Run init tr s

/-- Plays a list of actions, oldest first, on top of a run. -/
def play : List α → List (Transition σ α) × σ → Option (List (Transition σ α) × σ)
  | [], r => some r
  | a :: as, (tr, s) => (L.step a s).bind fun s' => play as (⟨s, a, s'⟩ :: tr, s')

/-- The run a list of actions makes from `init`, if every one of them can occur. -/
def replay (init : σ) (as : List α) : Option (List (Transition σ α) × σ) := L.play as ([], init)

variable {L} {init s s' : σ} {tr : List (Transition σ α)}

namespace Reachable

theorem refl (s : σ) : L.Reachable s s := ⟨[], .nil⟩

theorem next {a : α} (h : L.Reachable init s) (hs : L.step a s = some s') :
    L.Reachable init s' := by
  obtain ⟨tr, hr⟩ := h
  exact ⟨_, hr.next hs⟩

/-- What holds initially and is kept by every step from a reachable state holds of
every reachable state. -/
theorem induct {I : σ → Prop} (h : L.Reachable init s) (h0 : I init)
    (hstep : ∀ a s s', L.Reachable init s → I s → L.step a s = some s' → I s') : I s := by
  obtain ⟨tr, hr⟩ := h
  induction hr with
  | nil => exact h0
  | next hr hs ih => exact hstep _ _ _ ⟨_, hr⟩ ih hs

theorem invariant {I : σ → Prop} (h : L.Reachable init s) (h0 : I init)
    (hstep : ∀ a s s', I s → L.step a s = some s' → I s') : I s :=
  h.induct h0 fun a s s' _ => hstep a s s'

end Reachable

namespace Run

theorem reachable (h : L.Run init tr s) : L.Reachable init s := ⟨tr, h⟩

theorem append {newer : List (Transition σ α)} (h : L.Run init tr s) (h' : L.Run s newer s') :
    L.Run init (newer ++ tr) s' := by
  induction h' with
  | nil => exact h
  | next _ hs ih => exact ih.next hs

/-- A member of a run is a step from a state that the earlier transitions reach. -/
theorem transition (h : L.Run init tr s) {t : Transition σ α} (ht : t ∈ tr) :
    L.Reachable init t.pre ∧ L.step t.action t.pre = some t.post := by
  induction h with
  | nil => cases ht
  | next hr hs ih =>
    rcases List.mem_cons.mp ht with rfl | ht
    · exact ⟨hr.reachable, hs⟩
    · exact ih ht

/-- A run ends where its newest transition does, and was a run before it. -/
theorem cons {t : Transition σ α} (h : L.Run init (t :: tr) s) :
    L.Run init tr t.pre ∧ L.step t.action t.pre = some t.post ∧ s = t.post := by
  cases h with
  | next hr hs => exact ⟨hr, hs, rfl⟩

/-- What comes before a member of a run is a run up to it. -/
theorem split {newer older : List (Transition σ α)} {t : Transition σ α}
    (h : L.Run init (newer ++ t :: older) s) :
    L.Run init older t.pre ∧ L.step t.action t.pre = some t.post := by
  induction newer generalizing s with
  | nil => exact ⟨h.cons.1, h.cons.2.1⟩
  | cons u newer ih => exact ih h.cons.1

/-- The invariant rule for runs whose transitions all meet a condition. -/
theorem invariant_of {I : σ → Prop} {C : Transition σ α → Prop} (h : L.Run init tr s)
    (hc : ∀ t ∈ tr, C t) (h0 : I init)
    (hstep : ∀ t, I t.pre → L.step t.action t.pre = some t.post → C t → I t.post) :
    I s ∧ ∀ t ∈ tr, I t.pre ∧ I t.post := by
  induction h with
  | nil => exact ⟨h0, fun _ ht => nomatch ht⟩
  | @next tr s s' a hr hs ih =>
    obtain ⟨hi, hall⟩ := ih fun t ht => hc t (List.mem_cons_of_mem _ ht)
    have hpost : I s' := hstep ⟨s, a, s'⟩ hi hs (hc _ List.mem_cons_self)
    refine ⟨hpost, fun t ht => ?_⟩
    rcases List.mem_cons.mp ht with rfl | ht
    · exact ⟨hi, hpost⟩
    · exact hall t ht

/-- Where a step from `I` keeps `I` exactly when it meets `C`, a run is all `I` exactly
when its steps all meet `C`. -/
theorem forall_post_iff {I : σ → Prop} {C : Transition σ α → Prop} (h : L.Run init tr s)
    (h0 : I init) (hstep : ∀ t ∈ tr, I t.pre → (I t.post ↔ C t)) :
    (∀ t ∈ tr, I t.post) ↔ ∀ t ∈ tr, C t := by
  suffices hall : ((∀ t ∈ tr, I t.post) ↔ ∀ t ∈ tr, C t) ∧ ((∀ t ∈ tr, I t.post) → I s) from
    hall.1
  induction h with
  | nil => exact ⟨iff_of_true (List.forall_mem_nil _) (List.forall_mem_nil _), fun _ => h0⟩
  | @next tr s s' a hr hs ih =>
    obtain ⟨hiff, hpre⟩ := ih fun t ht => hstep t (List.mem_cons_of_mem _ ht)
    have hlast := hstep _ List.mem_cons_self
    simp only [List.forall_mem_cons]
    refine ⟨⟨fun hi => ?_, fun hc => ?_⟩, fun hi => hi.1⟩
    · exact ⟨(hlast (hpre hi.2)).mp hi.1, hiff.mp hi.2⟩
    · have hi := hiff.mpr hc.2
      exact ⟨(hlast (hpre hi)).mpr hc.1, hi⟩

end Run

theorem run_of_play {as : List α} {r : List (Transition σ α) × σ} (h : L.Run init tr s)
    (hp : L.play as (tr, s) = some r) : L.Run init r.1 r.2 := by
  induction as generalizing tr s with
  | nil =>
    obtain rfl := Option.some.inj hp
    exact h
  | cons a as ih =>
    obtain ⟨s', hs, hp⟩ := Option.bind_eq_some_iff.mp hp
    exact ih (h.next hs) hp

/-- A replay is a run. -/
theorem run_get {as : List α} (h : (L.replay init as).isSome = true) :
    L.Run init ((L.replay init as).get h).1 ((L.replay init as).get h).2 :=
  run_of_play .nil (Option.some_get h).symm

/-- `f` maps every step of `L` to a step of `M`, or to no step. -/
def Simulates (L : System σ α) (M : System τ β) (f : σ → τ) : Prop :=
  ∀ a s s', L.step a s = some s' → f s' = f s ∨ ∃ b, M.step b (f s) = some (f s')

theorem Simulates.reachable {M : System τ β} {f : σ → τ} (hsim : L.Simulates M f)
    (h : L.Reachable init s) : M.Reachable (f init) (f s) := by
  apply h.invariant (I := fun s => M.Reachable (f init) (f s)) (.refl _)
  intro a s s' hr hs
  rcases hsim a s s' hs with he | ⟨b, hb⟩
  · rwa [he]
  · exact hr.next hb

end System

end Lib
