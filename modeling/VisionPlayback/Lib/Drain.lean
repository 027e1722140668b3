import Mathlib.Data.List.Sort
import Mathlib.Data.List.Infix
import Mathlib.Data.UInt

/-!
# Draining an ordered store to a bound

Items are walked in a given order while a running total exceeds a bound. A
protected item is passed over; the removal of any other item is attempted, and
only a successful removal lowers the total. Nothing is assumed of the
arithmetic, so the results hold for wrapping totals as well.
-/

namespace Lib

/-- A sorting routine known by its contract alone: ties may come out in any order. -/
structure SortBy {ι κ : Type*} [LE κ] (rank : ι → κ) where
  sort : List ι → List ι
  perm : ∀ es, (sort es).Perm es
  sorted : ∀ es, (sort es).Pairwise fun a b => rank a ≤ rank b

/-- Insertion sort meets the contract. -/
def SortBy.insertion {ι κ : Type*} [LinearOrder κ] (rank : ι → κ) : SortBy rank where
  sort := List.insertionSort fun a b => rank a ≤ rank b
  perm := List.perm_insertionSort _
  sorted := fun es => by
    have : Std.Total fun a b : ι => rank a ≤ rank b := ⟨fun a b => le_total _ _⟩
    have : IsTrans ι fun a b => rank a ≤ rank b := ⟨fun _ _ _ => le_trans⟩
    exact List.pairwise_insertionSort _ es

/-- Without ties a list that is in order is the sorted one, whatever the routine. -/
theorem SortBy.sort_eq {ι κ : Type*} [PartialOrder κ] {rank : ι → κ} (s : SortBy rank)
    {es es' : List ι} (h : es.Perm es') (hs : es'.Pairwise fun a b => rank a ≤ rank b)
    (hinj : ∀ a ∈ es, ∀ b ∈ es, rank a = rank b → a = b) : s.sort es = es' := by
  refine List.Perm.eq_of_pairwise ?_ (s.sorted es) hs ((s.perm es).trans h)
  intro a b ha hb hab hba
  exact hinj a ((s.perm es).mem_iff.mp ha) b (h.mem_iff.mpr hb) (le_antisymm hab hba)

structure Drain (ι ω : Type*) where
  bound : ω
  protect : ι → Bool
  removable : ι → Bool
  size : ι → ω

namespace Drain

variable {ι ω : Type*} [LE ω] [DecidableLE ω] [Sub ω] (D : Drain ι ω)

/-- The total once an item has had its turn. -/
def charge (total : ω) (e : ι) : ω :=
  if D.protect e || !D.removable e then total else total - D.size e

/-- The total once every item of a list has had its turn. -/
def left (total : ω) (es : List ι) : ω := es.foldl D.charge total

/-- The items whose removal the walk attempts, in order. -/
def attempted : List ι → ω → List ι
  | [], _ => []
  | e :: es, total =>
    if total ≤ D.bound then []
    else if D.protect e then attempted es total
    else e :: attempted es (D.charge total e)

theorem attempted_cons (e : ι) (es : List ι) (total : ω) : D.attempted (e :: es) total =
    if total ≤ D.bound then []
    else if D.protect e then D.attempted es total
    else e :: D.attempted es (D.charge total e) := rfl

/-- At no point of a walk over `es` does the total come down to the bound. -/
def StaysOver (total : ω) (es : List ι) : Prop := ∀ p, p <+: es → ¬ D.left total p ≤ D.bound

omit [DecidableLE ω] in
theorem not_le_of_staysOver {total : ω} {es : List ι} (h : D.StaysOver total es) :
    ¬ total ≤ D.bound := h [] List.nil_prefix

omit [DecidableLE ω] in
theorem staysOver_nil {total : ω} : D.StaysOver total [] ↔ ¬ total ≤ D.bound := by
  refine ⟨D.not_le_of_staysOver, fun h p hp => ?_⟩
  obtain rfl := List.prefix_nil.mp hp
  exact h

omit [DecidableLE ω] in
theorem staysOver_cons {total : ω} {e : ι} {es : List ι} :
    D.StaysOver total (e :: es) ↔ ¬ total ≤ D.bound ∧ D.StaysOver (D.charge total e) es := by
  constructor
  · intro h
    refine ⟨D.not_le_of_staysOver h, fun p hp => ?_⟩
    exact h (e :: p) ((List.prefix_cons_inj e).mpr hp)
  · rintro ⟨hover, h⟩ p hp
    rcases List.prefix_cons_iff.mp hp with rfl | ⟨q, rfl, hq⟩
    · exact hover
    · exact h q hq

/-- An item is attempted exactly when it is unprotected and the total stays over
the bound up to its turn. -/
theorem mem_attempted {es : List ι} {total : ω} {e : ι} :
    e ∈ D.attempted es total ↔
      ∃ older newer, es = older ++ e :: newer ∧ D.protect e = false ∧ D.StaysOver total older := by
  induction es generalizing total with
  | nil => simp [attempted]
  | cons a es ih =>
    -- the item is the first one, or it stands in the tail, which the walk enters charged
    have hsplit : (∃ older newer, a :: es = older ++ e :: newer ∧ D.protect e = false ∧
        D.StaysOver total older) ↔
        ¬ total ≤ D.bound ∧ ((e = a ∧ D.protect a = false) ∨
          e ∈ D.attempted es (D.charge total a)) := by
      constructor
      · rintro ⟨older, newer, he, hp, hs⟩
        refine ⟨D.not_le_of_staysOver hs, ?_⟩
        cases older with
        | nil =>
          obtain ⟨rfl, rfl⟩ := List.cons.inj he
          exact Or.inl ⟨rfl, hp⟩
        | cons b older =>
          obtain ⟨rfl, rfl⟩ := List.cons.inj he
          exact Or.inr (ih.mpr ⟨older, newer, rfl, hp, (D.staysOver_cons.mp hs).2⟩)
      · rintro ⟨hover, ⟨rfl, hp⟩ | h⟩
        · exact ⟨[], es, rfl, hp, D.staysOver_nil.mpr hover⟩
        · obtain ⟨older, newer, rfl, hp, hs⟩ := ih.mp h
          exact ⟨a :: older, newer, rfl, hp, D.staysOver_cons.mpr ⟨hover, hs⟩⟩
    rw [hsplit, attempted_cons]
    by_cases hle : total ≤ D.bound
    · simp [hle]
    · by_cases hp : D.protect a
      · simp [hle, hp, charge]
      · simp [hle, hp]

/-! ## Where a walk comes to its end -/

/-- The item stays in the store when it has had its turn. -/
def stays (e : ι) : Bool := D.protect e || !D.removable e

omit [LE ω] [DecidableLE ω] in
theorem left_cons (total : ω) (e : ι) (es : List ι) :
    D.left total (e :: es) = D.left (D.charge total e) es := rfl

/-- The walk ends right after `older`: the total is within the bound there, and
nowhere before. -/
structure StopsAt (total : ω) (older : List ι) : Prop where
  within : D.left total older ≤ D.bound
  before : ∀ p, p <+: older → p ≠ older → ¬ D.left total p ≤ D.bound

omit [DecidableLE ω] in
theorem stopsAt_nil {total : ω} : D.StopsAt total [] ↔ total ≤ D.bound := by
  refine ⟨fun h => h.within, fun h => ⟨h, fun p hp hne => ?_⟩⟩
  exact absurd (List.prefix_nil.mp hp) hne

omit [DecidableLE ω] in
theorem stopsAt_cons {total : ω} {e : ι} {older : List ι} :
    D.StopsAt total (e :: older) ↔ ¬ total ≤ D.bound ∧ D.StopsAt (D.charge total e) older := by
  constructor
  · intro h
    refine ⟨h.before [] List.nil_prefix nofun, h.within, fun p hp hne => ?_⟩
    exact h.before (e :: p) ((List.prefix_cons_inj e).mpr hp) (by simpa using hne)
  · rintro ⟨hover, h⟩
    refine ⟨h.within, fun p hp hne => ?_⟩
    rcases List.prefix_cons_iff.mp hp with rfl | ⟨q, rfl, hq⟩
    · exact hover
    · exact h.before q hq (by simpa using hne)

omit [DecidableLE ω] in
/-- A walk that stops at an item's place has stayed over the bound up to every item
before it. -/
theorem StopsAt.staysOver {total : ω} {older mid : List ι} {e : ι}
    (h : D.StopsAt total (older ++ e :: mid)) : D.StaysOver total older := by
  intro p hp
  refine h.before p (hp.trans (List.prefix_append _ _)) fun he => ?_
  have hlen := hp.length_le
  rw [he, List.length_append, List.length_cons] at hlen
  omega

omit [DecidableLE ω] in
/-- A walk stops somewhere, or it stays over the bound to the end. -/
theorem staysOver_or_stopsAt (es : List ι) (total : ω) :
    D.StaysOver total es ∨ ∃ older newer, es = older ++ newer ∧ D.StopsAt total older := by
  induction es generalizing total with
  | nil =>
    by_cases hle : total ≤ D.bound
    · exact Or.inr ⟨[], [], rfl, D.stopsAt_nil.mpr hle⟩
    · exact Or.inl (D.staysOver_nil.mpr hle)
  | cons e es ih =>
    by_cases hle : total ≤ D.bound
    · exact Or.inr ⟨[], e :: es, rfl, D.stopsAt_nil.mpr hle⟩
    · rcases ih (D.charge total e) with hs | ⟨older, newer, rfl, hs⟩
      · exact Or.inl (D.staysOver_cons.mpr ⟨hle, hs⟩)
      · exact Or.inr ⟨e :: older, newer, rfl, D.stopsAt_cons.mpr ⟨hle, hs⟩⟩

/-- A walk that stays over the bound goes for every unprotected item. -/
theorem attempted_of_staysOver {es : List ι} {total : ω} (h : D.StaysOver total es) :
    D.attempted es total = es.filter fun e => !D.protect e := by
  induction es generalizing total with
  | nil => rfl
  | cons e es ih =>
    obtain ⟨hover, hs⟩ := D.staysOver_cons.mp h
    rw [attempted_cons, if_neg hover]
    by_cases hp : D.protect e = true
    · have hcharge : D.charge total e = total := by simp [charge, hp]
      rw [hcharge] at hs
      simp [hp, ih hs]
    · simp [hp, ih hs]

/-- A walk that stops after `older` goes for the unprotected items of `older`. -/
theorem attempted_of_stopsAt {older newer : List ι} {total : ω} (h : D.StopsAt total older) :
    D.attempted (older ++ newer) total = older.filter fun e => !D.protect e := by
  induction older generalizing total with
  | nil =>
    cases newer with
    | nil => rfl
    | cons e newer =>
      rw [List.nil_append, attempted_cons, if_pos (D.stopsAt_nil.mp h)]
      rfl
  | cons e older ih =>
    obtain ⟨hover, hs⟩ := D.stopsAt_cons.mp h
    rw [List.cons_append, attempted_cons, if_neg hover]
    by_cases hp : D.protect e = true
    · have hcharge : D.charge total e = total := by simp [charge, hp]
      rw [hcharge] at hs
      simp [hp, ih hs]
    · simp [hp, ih hs]

/-! ## Other bounds -/

omit [DecidableLE ω] in
/-- A walk that stays over a bound stays over every tighter one. -/
theorem StaysOver.tighter {total bound : ω} {es : List ι} (h : D.StaysOver total es)
    (htight : ∀ w, w ≤ bound → w ≤ D.bound) : { D with bound }.StaysOver total es :=
  fun p hp hwithin => h p hp (htight _ hwithin)

/-! ## Totals that do not wrap -/

section Value

variable {D} (value : ω → ℕ)

omit [LE ω] [DecidableLE ω] in
/-- While the total is what the items add up to, the subtractions are exact and what
is left is what the staying items add up to. `base` stands for items outside the list. -/
theorem value_left (hsub : ∀ a b, value b ≤ value a → value (a - b) = value a - value b)
    {es : List ι} {total : ω} {base : ℕ}
    (h : value total = base + (es.map fun e => value (D.size e)).sum) :
    value (D.left total es) = base + ((es.filter D.stays).map fun e => value (D.size e)).sum := by
  induction es generalizing total base with
  | nil => exact h
  | cons e es ih =>
    rw [List.map_cons, List.sum_cons] at h
    show value (D.left (D.charge total e) es) = _
    cases hs : D.stays e with
    | true =>
      have hcharge : D.charge total e = total := if_pos hs
      have hrest : value total =
          base + value (D.size e) + (es.map fun e => value (D.size e)).sum := by omega
      rw [hcharge, ih hrest, List.filter_cons_of_pos hs, List.map_cons, List.sum_cons]
      omega
    | false =>
      have hcharge : D.charge total e = total - D.size e :=
        if_neg (by rw [show (D.protect e || !D.removable e) = false from hs]; exact Bool.false_ne_true)
      have hexact := hsub total (D.size e) (by omega)
      have hrest : value (total - D.size e) = base + (es.map fun e => value (D.size e)).sum := by
        omega
      rw [hcharge, ih hrest, List.filter_cons_of_neg (by rw [hs]; exact Bool.false_ne_true)]

end Value

/-! ## One walk after another -/

section Twice

variable {ω : Type*} [LE ω] [DecidableLE ω] [Sub ω] (D : Drain ι ω) {es : List ι} {total : ω}
  {bound : ω}

/-- What a walk leaves in the store, in order. -/
def kept : List ι → ω → List ι
  | [], _ => []
  | e :: es, total =>
    if total ≤ D.bound then e :: es
    else if D.stays e then e :: kept es (D.charge total e)
    else kept es (D.charge total e)

/-- The total that a walk ends with. -/
def spent : List ι → ω → ω
  | [], total => total
  | e :: es, total => if total ≤ D.bound then total else spent es (D.charge total e)

theorem kept_cons (e : ι) (es : List ι) (total : ω) : D.kept (e :: es) total =
    if total ≤ D.bound then e :: es
    else if D.stays e then e :: D.kept es (D.charge total e)
    else D.kept es (D.charge total e) := rfl

theorem spent_cons (e : ι) (es : List ι) (total : ω) : D.spent (e :: es) total =
    if total ≤ D.bound then total else D.spent es (D.charge total e) := rfl

theorem kept_of_le (es : List ι) (h : total ≤ D.bound) : D.kept es total = es := by
  cases es with
  | nil => rfl
  | cons e es => rw [kept_cons, if_pos h]

theorem kept_sublist (es : List ι) (total : ω) : (D.kept es total).Sublist es := by
  induction es generalizing total with
  | nil => exact List.Sublist.slnil
  | cons e es ih =>
    rw [kept_cons]
    split
    · exact List.Sublist.refl _
    · split
      · exact (ih _).cons_cons e
      · exact (ih _).cons e

/-- What stays in the store is what the walk has not removed. -/
theorem mem_kept (hnodup : es.Nodup) {e : ι} : e ∈ D.kept es total ↔
    e ∈ es ∧ ¬ (e ∈ D.attempted es total ∧ D.removable e = true) := by
  induction es generalizing total with
  | nil => simp [kept]
  | cons a es ih =>
    obtain ⟨ha, hes⟩ := List.nodup_cons.mp hnodup
    have hsub : ∀ t, D.attempted es t ⊆ es := by
      intro t x hx
      obtain ⟨older, newer, rfl, -⟩ := D.mem_attempted.mp hx
      exact List.mem_append_right _ List.mem_cons_self
    rw [kept_cons, attempted_cons]
    by_cases hle : total ≤ D.bound
    · simp [hle]
    rw [if_neg hle, if_neg hle]
    by_cases hp : D.protect a = true
    · have hcharge : D.charge total a = total := by simp [charge, hp]
      rw [if_pos hp, hcharge, if_pos (by simp [stays, hp]), List.mem_cons, ih hes, List.mem_cons]
      grind
    · rw [if_neg hp]
      by_cases hr : D.removable a = true
      · rw [if_neg (by simp [stays, hp, hr]), ih hes, List.mem_cons, List.mem_cons]
        grind
      · rw [if_pos (by simp [stays, hr]), List.mem_cons, ih hes, List.mem_cons, List.mem_cons]
        grind

/-- A walk to a tighter bound may stop at the looser one on its way. -/
theorem kept_tighter (es : List ι) (total : ω) (htight : ∀ w, w ≤ bound → w ≤ D.bound) :
    { D with bound }.kept (D.kept es total) (D.spent es total) =
      { D with bound }.kept es total := by
  induction es generalizing total with
  | nil => rfl
  | cons e es ih =>
    by_cases hle : total ≤ D.bound
    · rw [kept_cons, spent_cons, if_pos hle, if_pos hle]
    have hlt : ¬ total ≤ bound := fun h => hle (htight _ h)
    have hnext := ih (D.charge total e)
    rw [kept_cons D, spent_cons D, if_neg hle, if_neg hle, kept_cons _ e es total, if_neg hlt]
    have hsame : { D with bound }.stays e = D.stays e := rfl
    rw [hsame]
    by_cases hstays : D.stays e = true
    · have hcharge : ∀ w, { D with bound }.charge w e = w := fun w => if_pos hstays
      have hcharge' : D.charge total e = total := if_pos hstays
      rw [hcharge'] at hnext ⊢
      rw [if_pos hstays, if_pos hstays, kept_cons, hsame, if_pos hstays, hcharge, hcharge]
      split
      · next hwithin =>
        rw [kept_of_le _ _ hwithin] at hnext
        exact congrArg (e :: ·) hnext
      · exact congrArg (e :: ·) hnext
    · rw [if_neg hstays, if_neg hstays]
      exact hnext

/-- After a walk that ends within its bound, or with everything in the store staying, a walk
to a looser bound has nothing left to do. -/
theorem kept_looser (es : List ι) (total : ω) (hloose : ∀ w, w ≤ D.bound → w ≤ bound) :
    { D with bound }.kept (D.kept es total) (D.spent es total) = D.kept es total := by
  induction es generalizing total with
  | nil => rfl
  | cons e es ih =>
    by_cases hle : total ≤ D.bound
    · rw [kept_cons, spent_cons, if_pos hle, if_pos hle]
      exact kept_of_le _ _ (hloose _ hle)
    have hnext := ih (D.charge total e)
    have hsame : { D with bound }.stays e = D.stays e := rfl
    rw [kept_cons D, spent_cons D, if_neg hle, if_neg hle]
    by_cases hstays : D.stays e = true
    · have hcharge : ∀ w, { D with bound }.charge w e = w := fun w => if_pos hstays
      rw [if_pos hstays, kept_cons, hsame, if_pos hstays, hcharge]
      split
      · rfl
      · exact congrArg (e :: ·) hnext
    · rw [if_neg hstays]
      exact hnext

end Twice

end Drain

end Lib
