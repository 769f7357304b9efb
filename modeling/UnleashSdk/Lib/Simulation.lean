/-
  SIMULATIONS: one machine does what another one specifies.

  A fine-grained machine takes many steps where its specification takes one, and most of them mean
  nothing to it.  `Simulates step spec answer R` says that every step of the first machine is
  answered by the actions `answer s a` of the specification, none or one or several, and that the
  relation `R` between the two states is kept.

  What is proved once, here: a whole run is answered by a whole run (`Simulates.run`), and the
  answers come in the order of the steps, so that every point of the run has its point in the
  answer (`Simulates.run_append`).  The second one is what orders operations in time: an operation
  over before the point is answered before it, one that has not begun is answered after it.  And
  what the specification does in answer to a run, it does at one of its steps (`Simulates.took`).
-/
import UnleashSdk.Lib.Machine

set_option linter.unusedVariables false

namespace Machine

variable {σ τ α β : Type} {step : σ → α → Option σ} {spec : τ → β → Option τ}
  {answer : σ → α → List β} {R : σ → τ → Prop}

/-- Every step is answered, and the states stay related. -/
def Simulates (step : σ → α → Option σ) (spec : τ → β → Option τ) (answer : σ → α → List β)
    (R : σ → τ → Prop) : Prop :=
  ∀ s t a s', R s t → step s a = some s' → ∃ t', run spec t (answer s a) = some t' ∧ R s' t'

/-- The answers to the steps of a run, in their order. -/
def answers (step : σ → α → Option σ) (answer : σ → α → List β) : σ → List α → List β
  | _, [] => []
  | s, a :: as =>
    answer s a ++
      match step s a with
      | some s' => answers step answer s' as
      | none => []

theorem answers_append {s u : σ} {as : List α} (h : run step s as = some u) (bs : List α) :
    answers step answer s (as ++ bs) =
      answers step answer s as ++ answers step answer u bs := by
  induction as generalizing s with
  | nil =>
    obtain rfl : s = u := Option.some.inj h
    rfl
  | cons a as ih =>
    obtain ⟨s', hs', hrun⟩ := run_cons_some h
    simp only [List.cons_append, answers, hs', ih hrun, List.append_assoc]

/-- What is done in answer to a run is done in answer to one of its actions. -/
theorem mem_answers {s : σ} {as : List α} {b : β} (h : b ∈ answers step answer s as) :
    ∃ a ∈ as, ∃ u, b ∈ answer u a := by
  induction as generalizing s with
  | nil => cases h
  | cons a as ih =>
    rw [answers, List.mem_append] at h
    rcases h with h | h
    · exact ⟨a, List.mem_cons_self, s, h⟩
    · split at h
      · obtain ⟨a', ha', hb⟩ := ih h
        exact ⟨a', List.mem_cons_of_mem a ha', hb⟩
      · cases h

/-- **Runs are answered by runs.** -/
theorem Simulates.run (h : Simulates step spec answer R) {s s' : σ} {t : τ} (hR : R s t)
    {as : List α} (hrun : run step s as = some s') :
    ∃ t', Machine.run spec t (answers step answer s as) = some t' ∧ R s' t' := by
  induction as generalizing s t with
  | nil =>
    obtain rfl : s = s' := Option.some.inj hrun
    exact ⟨t, rfl, hR⟩
  | cons a as ih =>
    obtain ⟨u, hu, hrest⟩ := run_cons_some hrun
    obtain ⟨v, hv, hR'⟩ := h s t a u hR hu
    obtain ⟨t', ht', hR''⟩ := ih hR' hrest
    refine ⟨t', ?_, hR''⟩
    rw [answers, hu]
    exact run_append.mpr ⟨v, hv, ht'⟩

/-- **Points of a run.**  Where a run is cut in two, its answer is cut in two, and the states at
    the cut are related. -/
theorem Simulates.run_append (h : Simulates step spec answer R) {s s' : σ} {t : τ} (hR : R s t)
    {as bs : List α} (hrun : Machine.run step s (as ++ bs) = some s') :
    ∃ u v t', Machine.run step s as = some u ∧
      Machine.run spec t (answers step answer s as) = some v ∧ R u v ∧
      Machine.run spec v (answers step answer u bs) = some t' ∧ R s' t' := by
  obtain ⟨u, hu, hrest⟩ := Machine.run_append.mp hrun
  obtain ⟨v, hv, hRuv⟩ := h.run hR hu
  obtain ⟨t', ht', hR'⟩ := h.run hRuv hrest
  exact ⟨u, v, t', hu, hv, hRuv, ht', hR'⟩

/-- **Steps of an answer.**  An action that the specification takes in answer to a run, it takes in
    answer to one step of the run, between related states. -/
theorem Simulates.took (h : Simulates step spec answer R) {s s' : σ} {t : τ} (hR : R s t)
    {as : List α} (hrun : Machine.run step s as = some s') {b : β} {Q : τ → Prop}
    (htook : Took spec t (answers step answer s as) b Q) :
    ∃ as₁ a as₂ u v, as = as₁ ++ a :: as₂ ∧ Machine.run step s as₁ = some u ∧ R u v ∧
      Took spec v (answer u a) b Q := by
  induction as generalizing s t with
  | nil =>
    obtain ⟨bs, cs, w, heq, -, -⟩ := htook
    exact absurd heq.symm (by simp [answers])
  | cons a as ih =>
    obtain ⟨u, hu, hrest⟩ := run_cons_some hrun
    obtain ⟨v, hv, hRuv⟩ := h s t a u hR hu
    rw [answers, hu] at htook
    -- the action belongs to the first answer or to a later one
    rcases htook.of_append hv with hfirst | hlater
    · exact ⟨[], a, as, s, t, rfl, rfl, hR, hfirst⟩
    · obtain ⟨as₁, a', as₂, u', v', rfl, hu', hR', htook'⟩ := ih hRuv hrest hlater
      exact ⟨a :: as₁, a', as₂, u', v', rfl, (run_cons_of_step hu as₁).trans hu', hR', htook'⟩

/-! ## Some of the actions -/

/-- The machine without the actions that `allowed` refuses. -/
def only (allowed : α → Bool) (step : σ → α → Option σ) (s : σ) (a : α) : Option σ :=
  if allowed a then step s a else none

end Machine
