import Mathlib.Data.List.Perm.Basic

/-!
# Leases handed out and taken back

A log of tokens that are granted and revoked. The issuer is trusted to grant no
token that is still live; the holder is not trusted, and the log is sound when
it also revokes live tokens only.
-/

namespace Lib.Lease

inductive Event (τ : Type*)
  | grant (token : τ)
  | revoke (token : τ)
  deriving DecidableEq

variable {τ : Type*} [DecidableEq τ]

/-- The live tokens after one event. -/
def Event.apply (live : List τ) : Event τ → List τ
  | .grant t => t :: live
  | .revoke t => live.erase t

/-- The live tokens after a log, oldest event first. -/
def after (live : List τ) (log : List (Event τ)) : List τ := log.foldl Event.apply live

/-- The issuer grants no token that is live. -/
def Fresh (live : List τ) : List (Event τ) → Prop
  | [] => True
  | .grant t :: log => t ∉ live ∧ Fresh (t :: live) log
  | .revoke t :: log => Fresh (live.erase t) log

/-- A token is granted while it is not live, and revoked while it is. -/
def Event.Allowed (live : List τ) : Event τ → Prop
  | .grant t => t ∉ live
  | .revoke t => t ∈ live

def Sound (live : List τ) : List (Event τ) → Prop
  | [] => True
  | e :: log => e.Allowed live ∧ Sound (e.apply live) log

instance (live : List τ) : (log : List (Event τ)) → Decidable (Fresh live log)
  | [] => inferInstanceAs (Decidable True)
  | .grant t :: log =>
    have := instDecidableFresh (t :: live) log
    inferInstanceAs (Decidable (t ∉ live ∧ Fresh (t :: live) log))
  | .revoke t :: log => instDecidableFresh (live.erase t) log

variable {live rest ts : List τ} {log log' : List (Event τ)} {t : τ}

theorem after_append (live : List τ) (log log' : List (Event τ)) :
    after live (log ++ log') = after (after live log) log' := List.foldl_append

theorem fresh_append : Fresh live (log ++ log') ↔ Fresh live log ∧ Fresh (after live log) log' := by
  induction log generalizing live with
  | nil => exact (true_and _).to_iff.symm
  | cons e log ih =>
    cases e with
    | grant t =>
      show t ∉ live ∧ Fresh (t :: live) (log ++ log') ↔ _
      rw [ih, ← and_assoc]
      rfl
    | revoke t => exact ih

theorem sound_append : Sound live (log ++ log') ↔ Sound live log ∧ Sound (after live log) log' := by
  induction log generalizing live with
  | nil => exact (true_and _).to_iff.symm
  | cons e log ih =>
    show e.Allowed live ∧ Sound (e.apply live) (log ++ log') ↔ _
    rw [ih, ← and_assoc]
    rfl

/-- In a sound log no token is live twice. -/
theorem nodup_after (h : live.Nodup) (hs : Sound live log) : (after live log).Nodup := by
  induction log generalizing live with
  | nil => exact h
  | cons e log ih =>
    obtain ⟨ha, hs⟩ := hs
    refine ih ?_ hs
    cases e with
    | grant t => exact List.nodup_cons.mpr ⟨ha, h⟩
    | revoke t => exact h.erase t

/-- A token is live only if it was, or has been granted. -/
theorem mem_or_grant_of_mem_after (h : t ∈ after live log) : t ∈ live ∨ .grant t ∈ log := by
  induction log generalizing live with
  | nil => exact Or.inl h
  | cons e log ih =>
    rcases ih h with hl | hl
    · cases e with
      | grant u =>
        rcases List.mem_cons.mp hl with rfl | hl
        · exact Or.inr List.mem_cons_self
        · exact Or.inl hl
      | revoke u => exact Or.inl (List.mem_of_mem_erase hl)
    · exact Or.inr (List.mem_cons_of_mem _ hl)

/-- Between two revocations of a token it is granted again. -/
theorem granted_between {a b c : List (Event τ)} (h : live.Nodup)
    (hs : Sound live (a ++ .revoke t :: (b ++ .revoke t :: c))) : .grant t ∈ b := by
  rw [sound_append] at hs
  obtain ⟨ha, -, hs⟩ := hs
  have hnodup := nodup_after h ha
  obtain ⟨-, hlive, -⟩ := sound_append.mp hs
  have hlive : t ∈ after ((after live a).erase t) b := hlive
  rcases mem_or_grant_of_mem_after hlive with hold | hnew
  · exact absurd hold (List.Nodup.not_mem_erase hnodup)
  · exact hnew

/-- Live tokens can be revoked one after another, and the others stay. -/
theorem revokes (h : live.Perm (ts ++ rest)) :
    Sound live (ts.map .revoke) ∧ (after live (ts.map .revoke)).Perm rest := by
  induction ts generalizing live with
  | nil => exact ⟨trivial, h⟩
  | cons t ts ih =>
    have hmem : t ∈ live := h.mem_iff.mpr List.mem_cons_self
    have herase : (live.erase t).Perm (ts ++ rest) := by
      have := h.erase t
      rwa [List.cons_append, List.erase_cons_head] at this
    exact ⟨⟨hmem, (ih herase).1⟩, (ih herase).2⟩

/-! ## Tokens under other names -/

section Map

variable {υ : Type*} [DecidableEq υ] {f : τ → υ}

def Event.map (f : τ → υ) : Event τ → Event υ
  | .grant t => .grant (f t)
  | .revoke t => .revoke (f t)

theorem after_map (hf : Function.Injective f) (live : List τ) (log : List (Event τ)) :
    after (live.map f) (log.map (Event.map f)) = (after live log).map f := by
  induction log generalizing live with
  | nil => rfl
  | cons e log ih =>
    cases e with
    | grant t => exact ih (t :: live)
    | revoke t =>
      have herase : (live.map f).erase (f t) = (live.erase t).map f := (List.map_erase hf live).symm
      show after ((live.map f).erase (f t)) (log.map (Event.map f)) = _
      rw [herase]
      exact ih (live.erase t)

/-- A log is sound under any other names for its tokens. -/
theorem sound_map (hf : Function.Injective f) (live : List τ) (log : List (Event τ)) :
    Sound (live.map f) (log.map (Event.map f)) ↔ Sound live log := by
  induction log generalizing live with
  | nil => exact Iff.rfl
  | cons e log ih =>
    cases e with
    | grant t => exact and_congr (not_congr (List.mem_map_of_injective hf)) (ih (t :: live))
    | revoke t =>
      have herase : (live.map f).erase (f t) = (live.erase t).map f := (List.map_erase hf live).symm
      refine and_congr (List.mem_map_of_injective hf) ?_
      show Sound ((live.map f).erase (f t)) (log.map (Event.map f)) ↔ _
      rw [herase]
      exact ih (live.erase t)

end Map

end Lib.Lease
