import Mathlib.Data.List.Basic

/-!
# Machines that send

A machine moves by labelled steps, and each step gives a list of what it sends.  A run is a list of
labels; its trace is what its steps send, in their order.

* `Machine.run_append`, `Machine.run_invariant` — a run in two parts, and what its steps keep.
* `Machine.recorded`, `Machine.run_recorded` — a machine with a history beside its state; the history
  takes no run away.
* `Hides`, `Hides.run` — some labels of a machine send nothing and are not seen by a second machine:
  then a run of the first is a run of the second, with these labels left out, and with the same trace.
-/

namespace Trace

/-- A machine whose steps send: `step s a` is the state after the label `a` and what is sent, or
`none` where the label is not enabled. -/
structure Machine (σ α ω : Type*) where
  step : σ → α → Option (σ × List ω)

variable {σ τ α β ω : Type*} {M : Machine σ α ω}

/-- The state after a list of labels, and the trace. -/
def Machine.run (M : Machine σ α ω) : σ → List α → Option (σ × List ω)
  | s, [] => some (s, [])
  | s, a :: as => do
      let (s, out) ← M.step s a
      let (s, more) ← M.run s as
      some (s, out ++ more)

theorem Machine.run_cons {s s' : σ} {a : α} {as : List α} {out : List ω}
    (h : M.run s (a :: as) = some (s', out)) :
    ∃ t first more, M.step s a = some (t, first) ∧ M.run t as = some (s', more) ∧
      out = first ++ more := by
  simp only [run, Option.bind_eq_bind, Option.bind_eq_some_iff, Option.some.injEq, Prod.mk.injEq]
    at h
  obtain ⟨⟨t, first⟩, hstep, ⟨s'', more⟩, hrun, rfl, rfl⟩ := h
  exact ⟨t, first, more, hstep, hrun, rfl⟩

/-- A run in two parts. -/
theorem Machine.run_append {s s' : σ} {as bs : List α} {out : List ω}
    (h : M.run s (as ++ bs) = some (s', out)) :
    ∃ t first more, M.run s as = some (t, first) ∧ M.run t bs = some (s', more) ∧
      out = first ++ more := by
  induction as generalizing s out with
  | nil => exact ⟨s, [], out, rfl, h, rfl⟩
  | cons a as ih =>
    obtain ⟨t, first, more, hstep, hrun, rfl⟩ := Machine.run_cons h
    obtain ⟨u, first', more', hfirst, hrest, rfl⟩ := ih hrun
    refine ⟨u, first ++ first', more', ?_, hrest, (List.append_assoc _ _ _).symm⟩
    simp [run, hstep, hfirst]

/-- **The invariant rule.**  What holds at the start of a run and is kept by its steps holds at its
end. -/
theorem Machine.run_invariant {I : σ → Prop} (ok : α → Prop)
    (hstep : ∀ s a s' out, I s → ok a → M.step s a = some (s', out) → I s')
    {s s' : σ} {as : List α} {out : List ω} (hok : ∀ a ∈ as, ok a) (h0 : I s)
    (h : M.run s as = some (s', out)) : I s' := by
  induction as generalizing s out with
  | nil =>
    cases h
    exact h0
  | cons a as ih =>
    obtain ⟨t, first, more, hfirst, hrun, rfl⟩ := Machine.run_cons h
    exact ih (fun b hb => hok b (by simp [hb])) (hstep s a t first h0 (hok a (by simp)) hfirst) hrun

/-- The machine with a history beside its state: `upd s a h` is the history after the label `a` in the
state `s`. -/
def Machine.recorded {γ : Type*} (M : Machine σ α ω) (upd : σ → α → γ → γ) : Machine (σ × γ) α ω where
  step s a := (M.step s.1 a).map fun (s', out) => ((s', upd s.1 a s.2), out)

/-- **A history takes no run away**, and adds none. -/
theorem Machine.run_recorded {γ : Type*} (upd : σ → α → γ → γ) {s s' : σ} (h : γ) {as : List α}
    {out : List ω} :
    M.run s as = some (s', out) ↔ ∃ h', (M.recorded upd).run (s, h) as = some ((s', h'), out) := by
  induction as generalizing s h out with
  | nil => simp [run]
  | cons a as ih =>
    cases hstep : M.step s a with
    | none => simp [run, recorded, hstep]
    | some p =>
      obtain ⟨t, first⟩ := p
      have hrest : ∀ more, M.run t as = some (s', more) ↔
          ∃ h', (M.recorded upd).run (t, upd s a h) as = some ((s', h'), more) := fun _ => ih _
      simp only [run, recorded, hstep, Option.bind_eq_bind, Option.bind_some, Option.map_some,
        Option.bind_eq_some_iff, Option.some.injEq, Prod.mk.injEq, Prod.exists] at hrest ⊢
      refine ⟨?_, ?_⟩
      · rintro ⟨u, more, hrun, rfl, rfl⟩
        obtain ⟨h', hrun'⟩ := (hrest more).1 hrun
        exact ⟨h', u, h', more, hrun', ⟨rfl, rfl⟩, rfl⟩
      · rintro ⟨h', u, h'', more, hrun, ⟨rfl, rfl⟩, rfl⟩
        exact ⟨u, more, (hrest more).2 ⟨h'', hrun⟩, rfl, rfl⟩

/-- The labels of `M` that `view` leaves out send nothing and do not change what `N` sees of the state;
on the others, as `view` gives them, the two machines agree. -/
structure Hides (M : Machine σ α ω) (N : Machine τ β ω) (view : α → Option β) (R : σ → τ → Prop)
    (ok : α → Prop) : Prop where
  visible : ∀ {s s' t a b out}, R s t → ok a → view a = some b → M.step s a = some (s', out) →
    ∃ t', N.step t b = some (t', out) ∧ R s' t'
  silent : ∀ {s s' t a out}, R s t → view a = none → M.step s a = some (s', out) → out = [] ∧ R s' t

/-- **A run of a machine is a run of another one from which some labels are hidden**, with the same
trace. -/
theorem Hides.run {M : Machine σ α ω} {N : Machine τ β ω} {view : α → Option β} {R : σ → τ → Prop}
    {ok : α → Prop} (h : Hides M N view R ok) {s s' : σ} {t : τ} {as : List α} {out : List ω}
    (hR : R s t) (hok : ∀ a ∈ as, ok a) (hrun : M.run s as = some (s', out)) :
    ∃ t', N.run t (as.filterMap view) = some (t', out) ∧ R s' t' := by
  induction as generalizing s t out with
  | nil =>
    cases hrun
    exact ⟨t, rfl, hR⟩
  | cons a as ih =>
    obtain ⟨u, first, more, hstep, hrest, rfl⟩ := Machine.run_cons hrun
    have hok' : ∀ b ∈ as, ok b := fun b hb => hok b (List.mem_cons_of_mem a hb)
    cases hview : view a with
    | some b =>
      obtain ⟨t', hN, hR'⟩ := h.visible hR (hok a List.mem_cons_self) hview hstep
      obtain ⟨t'', hrun', hR''⟩ := ih hR' hok' hrest
      exact ⟨t'', by simp [Machine.run, hview, hN, hrun'], hR''⟩
    | none =>
      obtain ⟨rfl, hR'⟩ := h.silent hR hview hstep
      rw [List.filterMap_cons_none hview]
      exact ih hR' hok' hrest

end Trace
