import Mathlib.Data.List.Basic

/-!
# Paths by components

A path is cut at its separators and walked from left to right: an empty component
and a dot stay where they are, two dots go up, anything else goes down.
-/

namespace Lib.Path

variable {α : Type*} [DecidableEq α] {sep dot : α}

/-- The directory reached from `at` by one component. -/
def enter (dot : α) (dir : List (List α)) (c : List α) : List (List α) :=
  if c = [] ∨ c = [dot] then dir else if c = [dot, dot] then dir.dropLast else dir ++ [c]

def walk (dot : α) (dir cs : List (List α)) : List (List α) := cs.foldl (enter dot) dir

def resolve (sep dot : α) (path : List α) : List (List α) := walk dot [] (path.splitOn sep)

/-- The component takes a walk down. -/
def descends (dot : α) (c : List α) : Bool := c ≠ [] && c ≠ [dot]

theorem resolve_append (p q : List α) :
    resolve sep dot (p ++ sep :: q) = walk dot (resolve sep dot p) (q.splitOn sep) := by
  rw [resolve, List.splitOn_append_cons_self, walk, List.foldl_append]
  rfl

/-- A walk that never goes up ends below the place it starts from. -/
theorem walk_of_notMem_up {dir cs : List (List α)} (h : [dot, dot] ∉ cs) :
    walk dot dir cs = dir ++ cs.filter (descends dot) := by
  induction cs generalizing dir with
  | nil => exact (List.append_nil dir).symm
  | cons c cs ih =>
    rw [List.mem_cons, not_or] at h
    obtain ⟨hc, hcs⟩ := h
    show walk dot (enter dot dir c) cs = _
    rw [ih hcs, enter]
    by_cases hstay : c = [] ∨ c = [dot]
    · have hf : descends dot c = false := by
        rcases hstay with rfl | rfl <;> simp [descends]
      rw [if_pos hstay, List.filter_cons_of_neg (by rw [hf]; decide)]
    · have hf : descends dot c = true := by
        rw [not_or] at hstay
        simp [descends, hstay]
      rw [if_neg hstay, if_neg (Ne.symm hc), List.filter_cons_of_pos hf, List.append_assoc]
      rfl

/-- Two components below a path, neither of which goes up. -/
theorem resolve_pair {p a b : List α} (ha : sep ∉ a) (hb : sep ∉ b) (hup : a ≠ [dot, dot])
    (hup' : b ≠ [dot, dot]) :
    resolve sep dot (p ++ sep :: (a ++ sep :: b)) =
      resolve sep dot p ++ [a, b].filter (descends dot) := by
  rw [resolve_append, List.splitOn_append_cons_self_of_not_mem ha, List.splitOn_eq_singleton hb]
  apply walk_of_notMem_up
  intro hmem
  rcases List.mem_cons.mp hmem with he | hmem
  · exact hup he.symm
  · exact hup' (List.mem_singleton.mp hmem).symm

omit [DecidableEq α] in
/-- Without two dots in a row anywhere, no component goes up. -/
theorem ne_up_of_not_infix {a b : List α} (h : ¬ [dot, dot] <:+: a ++ sep :: b) :
    a ≠ [dot, dot] ∧ b ≠ [dot, dot] := by
  constructor
  · rintro rfl
    exact h (List.prefix_append _ _).isInfix
  · rintro rfl
    exact h ((List.suffix_cons sep _).trans (List.suffix_append _ _)).isInfix

end Lib.Path
