import Mathlib.Data.List.Basic

/-!
# Routes by path pattern

A pattern fits a path component by component: a fixed component allows a few
spellings, an argument takes any component that is not empty. Where no two rules of a
verb fit one path, the order of the rules does not matter.
-/

namespace Lib.Router

inductive Component (α : Type*)
  | fixed (spellings : List (List α))
  | arg
  deriving DecidableEq

variable {α ν β : Type*} [DecidableEq α]

/-- The components at the arguments of a pattern, if the path fits. -/
def capture : List (Component α) → List (List α) → Option (List (List α))
  | [], [] => some []
  | .fixed spellings :: ps, c :: cs => if c ∈ spellings then capture ps cs else none
  | .arg :: ps, c :: cs => if c = [] then none else (capture ps cs).map (c :: ·)
  | [], _ :: _ | .fixed _ :: _, [] | .arg :: _, [] => none

/-- The path fits the pattern with these arguments. -/
inductive Fits : List (Component α) → List (List α) → List (List α) → Prop
  | nil : Fits [] [] []
  | fixed {spellings : List (List α)} {c : List α} {ps : List (Component α)} {cs as : List (List α)} :
      c ∈ spellings → Fits ps cs as → Fits (.fixed spellings :: ps) (c :: cs) as
  | arg {c : List α} {ps : List (Component α)} {cs as : List (List α)} :
      c ≠ [] → Fits ps cs as → Fits (.arg :: ps) (c :: cs) (c :: as)

theorem capture_eq_some_iff {ps : List (Component α)} {cs as : List (List α)} :
    capture ps cs = some as ↔ Fits ps cs as := by
  constructor
  · intro h
    fun_induction capture ps cs generalizing as with
    | case1 =>
      obtain rfl := Option.some.inj h
      exact .nil
    | case2 spellings ps c cs hc ih => exact .fixed hc (ih h)
    | case3 => cases h
    | case4 => cases h
    | case5 ps c cs hc ih =>
      obtain ⟨as', ht, rfl⟩ := Option.map_eq_some_iff.mp h
      exact .arg hc (ih ht)
    | case6 => cases h
    | case7 => cases h
    | case8 => cases h
  · intro h
    induction h with
    | nil => rfl
    | fixed hc _ ih => rw [capture, if_pos hc, ih]
    | arg hc _ ih => rw [capture, if_neg hc, ih]; rfl

/-- No path fits both patterns: they differ in length, or in a fixed component. -/
def apart : List (Component α) → List (Component α) → Bool
  | [], [] => false
  | .fixed s :: ps, .fixed s' :: qs => s.all (fun c => decide (c ∉ s')) || apart ps qs
  | .arg :: ps, .fixed _ :: qs | .fixed _ :: ps, .arg :: qs | .arg :: ps, .arg :: qs => apart ps qs
  | [], _ :: _ | _ :: _, [] => true

theorem not_fits_of_apart {ps qs : List (Component α)} {cs as bs : List (List α)}
    (h : apart ps qs = true) (hp : Fits ps cs as) : ¬ Fits qs cs bs := by
  intro hq
  induction hp generalizing qs bs with
  | nil =>
    cases hq
    cases h
  | fixed hc hp ih =>
    cases hq with
    | fixed hc' hq =>
      rcases Bool.or_eq_true _ _ ▸ h with hall | htail
      · exact of_decide_eq_true (List.all_eq_true.mp hall _ hc) hc'
      · exact ih htail hq
    | arg _ hq => exact ih h hq
  | arg hc hp ih =>
    cases hq with
    | fixed _ hq => exact ih h hq
    | arg _ hq => exact ih h hq

structure Rule (ν α β : Type*) where
  verb : ν
  pattern : List (Component α)
  target : β

section Route

variable [DecidableEq ν]

def Rule.match? (v : ν) (cs : List (List α)) (r : Rule ν α β) : Option (β × List (List α)) :=
  if r.verb = v then (capture r.pattern cs).map (r.target, ·) else none

/-- The first rule that fits. -/
def route (rules : List (Rule ν α β)) (v : ν) (cs : List (List α)) :
    Option (β × List (List α)) :=
  rules.findSome? (·.match? v cs)

/-- No request is for two rules. -/
def Unambiguous (rules : List (Rule ν α β)) : Prop :=
  rules.Pairwise fun r r' => r.verb ≠ r'.verb ∨ apart r.pattern r'.pattern = true

theorem Rule.match?_eq_some_iff {r : Rule ν α β} {v : ν} {cs as : List (List α)} {b : β} :
    r.match? v cs = some (b, as) ↔ r.verb = v ∧ r.target = b ∧ Fits r.pattern cs as := by
  rw [Rule.match?, ← capture_eq_some_iff]
  by_cases hv : r.verb = v
  · rw [if_pos hv, Option.map_eq_some_iff]
    constructor
    · rintro ⟨as', hc, he⟩
      obtain ⟨rfl, rfl⟩ := Prod.mk.inj he
      exact ⟨hv, rfl, hc⟩
    · rintro ⟨-, rfl, hc⟩
      exact ⟨as, hc, rfl⟩
  · rw [if_neg hv]
    exact iff_of_false nofun fun h => hv h.1

theorem route_eq_some_iff {rules : List (Rule ν α β)} (h : Unambiguous rules) {v : ν}
    {cs as : List (List α)} {b : β} : route rules v cs = some (b, as) ↔
      ∃ r ∈ rules, r.verb = v ∧ r.target = b ∧ Fits r.pattern cs as := by
  induction rules with
  | nil => exact iff_of_false nofun fun ⟨r, hr, _⟩ => nomatch hr
  | cons r rules ih =>
    obtain ⟨hr, hrules⟩ := List.pairwise_cons.mp h
    rw [route, List.findSome?_cons]
    cases hm : r.match? v cs with
    | none =>
      show route rules v cs = some (b, as) ↔ _
      rw [ih hrules, List.exists_mem_cons_iff, ← Rule.match?_eq_some_iff, hm]
      exact (or_iff_right nofun).symm
    | some found =>
      rw [List.exists_mem_cons_iff, ← Rule.match?_eq_some_iff, hm]
      refine (or_iff_left ?_).symm
      rintro ⟨r', hr', hverb, -, hfits⟩
      obtain ⟨hverb', -, hfits'⟩ := Rule.match?_eq_some_iff.mp hm
      rcases hr r' hr' with hne | hapart
      · exact hne (hverb'.trans hverb.symm)
      · exact not_fits_of_apart hapart hfits' hfits

end Route

end Lib.Router
