import EasyIpc.Lib.FirstMatch
import Mathlib.Data.List.Forall2
import Mathlib.Algebra.BigOperators.Group.List.Basic
import Mathlib.Algebra.Ring.Nat

/-!
# Replaying effects that only add

Effects are applied to a state one after the other, and each may fail.  Where each of them leaves
the state as it is or makes it bigger, a run ends where it began only if every effect of it found
nothing to do: `Growing.foldlM_eq_self_iff`.

The size of a table is the sum of the sizes of its entries; `sum_of_forall₂` says that a table grows
with its entries, for an update of every entry (`forall₂_mapM`) and of one of them
(`forall₂_modifyFirst`).
-/

namespace Replay

variable {σ ε : Type*} {apply : σ → ε → Option σ} {size : σ → ℕ}

/-- Each effect leaves the state as it is or makes it bigger. -/
def Growing (apply : σ → ε → Option σ) (size : σ → ℕ) : Prop :=
  ∀ s e s', apply s e = some s' → s' = s ∨ size s < size s'

namespace Growing

variable {s s' : σ} {effects : List ε}

/-- A run of effects leaves the state as it is or makes it bigger. -/
theorem foldlM (h : Growing apply size) (hrun : effects.foldlM apply s = some s') :
    s' = s ∨ size s < size s' := by
  induction effects generalizing s with
  | nil => exact Or.inl (Option.some.inj hrun).symm
  | cons e effects ih =>
    rw [List.foldlM_cons, Option.bind_eq_bind, Option.bind_eq_some_iff] at hrun
    obtain ⟨t, hfirst, hrest⟩ := hrun
    rcases h s e t hfirst with rfl | hlt
    · exact ih hrest
    · rcases ih hrest with rfl | hlt'
      · exact Or.inr hlt
      · exact Or.inr (Nat.lt_trans hlt hlt')

/-- **A run ends where it began exactly when no effect of it changes that state.** -/
theorem foldlM_eq_self_iff (h : Growing apply size) :
    effects.foldlM apply s = some s ↔ ∀ e ∈ effects, apply s e = some s := by
  induction effects with
  | nil => simp
  | cons e effects ih =>
    rw [List.foldlM_cons, Option.bind_eq_bind, List.forall_mem_cons, ← ih]
    refine ⟨?_, ?_⟩
    · intro hrun
      obtain ⟨t, hfirst, hrest⟩ := Option.bind_eq_some_iff.1 hrun
      -- a first effect that adds something cannot be undone by the others
      rcases h s e t hfirst with rfl | hlt
      · exact ⟨hfirst, hrest⟩
      · rcases h.foldlM hrest with rfl | hlt'
        · exact absurd hlt (Nat.lt_irrefl _)
        · exact absurd (Nat.lt_trans hlt hlt') (Nat.lt_irrefl _)
    · rintro ⟨hfirst, hrest⟩
      rw [hfirst, Option.bind_some]
      exact hrest

end Growing

/-- What each effect keeps, a run of them keeps. -/
theorem foldlM_keeps {β : Type*} {g : σ → β} {s s' : σ} {effects : List ε}
    (h : ∀ s e s', apply s e = some s' → g s' = g s) (hrun : effects.foldlM apply s = some s') :
    g s' = g s := by
  induction effects generalizing s with
  | nil => exact congrArg g (Option.some.inj hrun).symm
  | cons e effects ih =>
    rw [List.foldlM_cons, Option.bind_eq_bind, Option.bind_eq_some_iff] at hrun
    obtain ⟨t, hfirst, hrest⟩ := hrun
    exact (ih hrest).trans (h s e t hfirst)

/-! ## Tables -/

section Tables

variable {α : Type*} {g : α → ℕ} {f : α → Option α}

/-- The entry is as it was, or bigger. -/
def Grows (g : α → ℕ) (a b : α) : Prop := b = a ∨ g a < g b

/-- A table grows with its entries. -/
theorem sum_of_forall₂ {l l' : List α} (h : List.Forall₂ (Grows g) l l') :
    l' = l ∨ (l.map g).sum < (l'.map g).sum := by
  induction h with
  | nil => exact Or.inl rfl
  | @cons a b l l' hab _ ih =>
    simp only [List.map_cons, List.sum_cons]
    rcases hab with rfl | hlt
    · rcases ih with rfl | hlt
      · exact Or.inl rfl
      · exact Or.inr (by omega)
    · have hrest : (l.map g).sum ≤ (l'.map g).sum := by
        rcases ih with rfl | hlt'
        · exact Nat.le_refl _
        · exact Nat.le_of_lt hlt'
      exact Or.inr (by omega)

/-- An update of all entries. -/
theorem forall₂_mapM {R : α → α → Prop} (hf : ∀ a b, f a = some b → R a b) {l l' : List α}
    (h : l.mapM f = some l') : List.Forall₂ R l l' := by
  induction l generalizing l' with
  | nil =>
    obtain rfl := Option.some.inj h
    exact List.Forall₂.nil
  | cons a l ih =>
    rw [List.mapM_cons, Option.bind_eq_bind, Option.bind_eq_some_iff] at h
    obtain ⟨b, hb, h⟩ := h
    obtain ⟨bs, hbs, h⟩ := Option.bind_eq_some_iff.1 h
    obtain rfl := Option.some.inj h
    exact List.Forall₂.cons (hf a b hb) (ih hbs)

/-- Two updates, one after the other. -/
theorem forall₂_trans {P Q R : α → α → Prop} (h : ∀ a b c, P a b → Q b c → R a c)
    {l l' l'' : List α} (hP : List.Forall₂ P l l') (hQ : List.Forall₂ Q l' l'') :
    List.Forall₂ R l l'' := by
  induction hP generalizing l'' with
  | nil =>
    cases hQ
    exact List.Forall₂.nil
  | cons hab _ ih =>
    cases hQ with
    | cons hbc hrest => exact List.Forall₂.cons (h _ _ _ hab hbc) (ih hrest)

/-- What an update keeps of each entry, it keeps of the table. -/
theorem map_mapM {β : Type*} {k : α → β} (hf : ∀ a b, f a = some b → k b = k a) {l l' : List α}
    (h : l.mapM f = some l') : l'.map k = l.map k := by
  have hall := forall₂_mapM hf h
  clear h
  induction hall with
  | nil => rfl
  | cons hab _ ih => rw [List.map_cons, List.map_cons, hab, ih]

/-- An update of all entries changes nothing exactly when it changes none of them. -/
theorem mapM_eq_self_iff {l : List α} : l.mapM f = some l ↔ ∀ a ∈ l, f a = some a := by
  induction l with
  | nil => simp
  | cons a l ih =>
    rw [List.mapM_cons, List.forall_mem_cons, ← ih]
    cases f a with
    | none => simp
    | some b =>
      cases l.mapM f with
      | none => simp
      | some bs => simp

open FirstMatch in
/-- An update of the first entry that matches. -/
theorem forall₂_modifyFirst {p : α → Bool} {f : α → α} (hf : ∀ a, Grows g a (f a)) (l : List α) :
    List.Forall₂ (Grows g) l (modifyFirst p f l) := by
  have hsame : ∀ l : List α, List.Forall₂ (Grows g) l l :=
    fun l => List.forall₂_same.2 fun a _ => Or.inl rfl
  induction l with
  | nil => exact List.Forall₂.nil
  | cons a l ih =>
    by_cases ha : p a
    · rw [modifyFirst_cons_of_pos ha]
      exact List.Forall₂.cons (hf a) (hsame l)
    · rw [modifyFirst_cons_of_neg ha]
      exact List.Forall₂.cons (Or.inl rfl) ih

end Tables

end Replay
