import Mathlib.Data.List.Basic

/-!
# Labelled transition systems with guarded runs

A system starts in one state and moves by labelled steps.  A label fixes its step, so all the
nondeterminism of the system sits in the choice of the labels, and a run is a list of them.

* `Reach` — the states reached by runs whose every step meets a guard.
* `Reach.invariant` — the induction over a run, packaged once.
* `Reach.of_run`, `Reach.runOk` — a concrete run, evaluated, is a reachability proof.
* `Lts.run_countP` — where a number of the state falls with each step that counts, there are at most so
  many of them in a run.
-/

namespace Transition

/-- A labelled transition system: `step s a` is the state after the label `a`, or `none` where
the label is not enabled. -/
structure Lts (σ α : Type*) where
  init : σ
  step : σ → α → Option σ

variable {σ α : Type*} {S : Lts σ α} {ok ok' : σ → α → σ → Prop}

/-- The guard that every step meets. -/
def Free : σ → α → σ → Prop := fun _ _ _ => True

/-- The states reached by runs whose steps all meet the guard `ok`. -/
inductive Reach (S : Lts σ α) (ok : σ → α → σ → Prop) : σ → Prop
  | init : Reach S ok S.init
  | step {s s' : σ} {a : α} : Reach S ok s → S.step s a = some s' → ok s a s' → Reach S ok s'

/-- **The invariant rule.**  What holds at the start and is kept by every guarded step from a
reachable state holds in every reachable state. -/
theorem Reach.invariant {I : σ → Prop} (h0 : I S.init)
    (hstep : ∀ s a s', Reach S ok s → I s → S.step s a = some s' → ok s a s' → I s')
    {s : σ} (h : Reach S ok s) : I s := by
  induction h with
  | init => exact h0
  | step hr hs hok ih => exact hstep _ _ _ hr ih hs hok

/-- A weaker guard reaches at least as many states. -/
theorem Reach.mono (himp : ∀ s a s', ok s a s' → ok' s a s') {s : σ} (h : Reach S ok s) :
    Reach S ok' s := by
  induction h with
  | init => exact .init
  | step _ hs hok ih => exact .step ih hs (himp _ _ _ hok)

/-- A guarded run is in particular a run. -/
theorem Reach.free {s : σ} (h : Reach S ok s) : Reach S Free s :=
  h.mono fun _ _ _ _ => trivial

/-- The state after a list of labels. -/
def Lts.run (S : Lts σ α) : σ → List α → Option σ
  | s, [] => some s
  | s, a :: as => (S.step s a).bind fun s' => S.run s' as

theorem Lts.run_cons {s s' : σ} {a : α} {as : List α} (h : S.run s (a :: as) = some s') :
    ∃ t, S.step s a = some t ∧ S.run t as = some s' := by
  simpa [Lts.run, Option.bind_eq_some_iff] using h

/-- The guard on the labels alone. -/
def OnLabels (P : α → Prop) : σ → α → σ → Prop := fun _ a _ => P a

/-- A run that can be evaluated, with labels that all meet the guard, ends in a reachable
state. -/
theorem Reach.run {P : α → Prop} {s s' : σ} {as : List α} (h : Reach S (OnLabels P) s)
    (hP : ∀ a ∈ as, P a) (hrun : S.run s as = some s') : Reach S (OnLabels P) s' := by
  induction as generalizing s with
  | nil =>
    obtain rfl : s = s' := by simpa [Lts.run] using hrun
    exact h
  | cons a as ih =>
    obtain ⟨t, hst, hts⟩ := Lts.run_cons hrun
    exact ih (.step h hst (hP a (by simp))) (fun b hb => hP b (by simp [hb])) hts

theorem Reach.of_run {s : σ} {as : List α} (hrun : S.run S.init as = some s) : Reach S Free s :=
  (Reach.run (P := fun _ => True) .init (fun _ _ => trivial) hrun).free

/-- The guard on the states alone. -/
def OnStates (P : σ → Prop) : σ → α → σ → Prop := fun _ _ s' => P s'

instance (P : σ → Prop) [DecidablePred P] (s : σ) (a : α) (s' : σ) :
    Decidable (OnStates P s a s') := inferInstanceAs (Decidable (P s'))

/-- The state after a list of labels whose steps all meet the guard. -/
def Lts.runOk (S : Lts σ α) (ok : σ → α → σ → Prop) [∀ s a s', Decidable (ok s a s')] :
    σ → List α → Option σ
  | s, [] => some s
  | s, a :: as =>
      match S.step s a with
      | none => none
      | some s' => if ok s a s' then S.runOk ok s' as else none

/-- A guarded run that can be evaluated ends in a reachable state. -/
theorem Reach.runOk [∀ s a s', Decidable (ok s a s')] {s s' : σ} {as : List α}
    (h : Reach S ok s) (hrun : S.runOk ok s as = some s') : Reach S ok s' := by
  induction as generalizing s with
  | nil =>
    obtain rfl : s = s' := by simpa [Lts.runOk] using hrun
    exact h
  | cons a as ih =>
    simp only [Lts.runOk] at hrun
    split at hrun
    · cases hrun
    · rename_i t hst
      split at hrun
      · rename_i hok
        exact ih (.step h hst hok) hrun
      · cases hrun

/-- **Runs that end.**  `P` is the kind of steps, `I` is kept by them, and each step that counts lowers
`rank`, which no other step raises. -/
theorem Lts.run_countP {I : σ → Prop} {P : α → Prop} {counts : α → Bool} {rank : σ → ℕ}
    (hstep : ∀ s a s', I s → P a → S.step s a = some s' →
      I s' ∧ rank s' + (if counts a = true then 1 else 0) ≤ rank s)
    {s s' : σ} {as : List α} (hI : I s) (hP : ∀ a ∈ as, P a) (hrun : S.run s as = some s') :
    I s' ∧ rank s' + as.countP counts ≤ rank s := by
  induction as generalizing s with
  | nil =>
    obtain rfl : s = s' := by simpa [Lts.run] using hrun
    exact ⟨hI, by simp⟩
  | cons a as ih =>
    obtain ⟨t, hst, hts⟩ := Lts.run_cons hrun
    obtain ⟨hIt, hpaid⟩ := hstep s a t hI (hP a (by simp)) hst
    obtain ⟨hI', hrest⟩ := ih hIt (fun b hb => hP b (by simp [hb])) hts
    refine ⟨hI', ?_⟩
    rw [List.countP_cons]
    omega

end Transition
