/-
  RUNS OF A GUARDED STEP FUNCTION.

  A concurrent program is modelled by ONE executable function `step : σ → α → Option σ`: the
  actions `α` are the atomic steps of all its threads, a scheduler is any list of actions, and
  `step s a = none` says that `a` is not enabled in `s` (a thread is blocked, or is somewhere
  else in its code).  An interleaving of any length is then a list `as` with
  `run step s as = some t`.

  What is proved about runs is always one of three things, and each has one rule here:

  * `run_inv`       — what every step preserves, every run preserves;
  * `run_history`   — the same for a relation between the state and the actions taken so far
                      (ledgers, logs, "the last accepted response");
  * `run_inv_meets` — what every step taken UNDER A CONDITION preserves is preserved by every
                      run whose steps all meet that condition (`Meets`).

  The last rule is the one for programs that are right only on some schedules: `Meets step P s as`
  says of the schedule `as` that each of its steps is taken in a state where `P` allows it.  Where
  the condition is exact, `always_iff_meets` gives both directions from facts about one step.
-/
import Mathlib.Data.List.Induction

set_option linter.unusedVariables false

namespace Machine

variable {σ α : Type}

/-- The state after the actions `as`, taken in order from `s`. -/
def run (step : σ → α → Option σ) : σ → List α → Option σ
  | s, [] => some s
  | s, a :: as =>
    match step s a with
    | some t => run step t as
    | none => none

/-- Every step of the run `as` from `s` is taken in a state where `P` allows it. -/
def Meets (step : σ → α → Option σ) (P : σ → α → Prop) : σ → List α → Prop
  | _, [] => True
  | s, a :: as =>
    P s a ∧
      match step s a with
      | some t => Meets step P t as
      | none => True

variable {step : σ → α → Option σ} {P : σ → α → Prop}

/-! ## Runs, taken apart -/

@[simp] theorem run_nil (s : σ) : run step s [] = some s := rfl

theorem run_cons_some {s t : σ} {a : α} {as : List α} (h : run step s (a :: as) = some t) :
    ∃ s', step s a = some s' ∧ run step s' as = some t := by
  unfold run at h
  split at h
  · rename_i s' hs'
    exact ⟨s', hs', h⟩
  · nomatch h

theorem run_cons_of_step {s s' : σ} {a : α} (h : step s a = some s') (as : List α) :
    run step s (a :: as) = run step s' as := by
  simp only [run, h]

/-- A run of `as ++ bs` is a run of `as` followed by a run of `bs`. -/
theorem run_append {s t : σ} {as bs : List α} :
    run step s (as ++ bs) = some t ↔ ∃ u, run step s as = some u ∧ run step u bs = some t := by
  induction as generalizing s with
  | nil => simp
  | cons a as ih =>
    cases hs : step s a with
    | none => simp [run, hs]
    | some s' => simp only [List.cons_append, run_cons_of_step hs, ih]

/-- A run that ends in `a` is a run up to `a` and the step `a`. -/
theorem run_snoc {s t : σ} {as : List α} {a : α} :
    run step s (as ++ [a]) = some t ↔ ∃ u, run step s as = some u ∧ step u a = some t := by
  rw [run_append]
  refine exists_congr fun u => and_congr_right fun _ => ?_
  cases hu : step u a <;> simp [run, hu]

/-! ## The condition on a schedule -/

@[simp] theorem meets_nil (s : σ) : Meets step P s [] := trivial

/-- One more step: the schedule met the condition so far, and the last step meets it. -/
theorem meets_snoc {s u : σ} {as : List α} {a : α} (h : run step s as = some u) :
    Meets step P s (as ++ [a]) ↔ Meets step P s as ∧ P u a := by
  induction as generalizing s with
  | nil =>
    obtain rfl : s = u := Option.some.inj h
    cases hs : step s a <;> simp [Meets, hs]
  | cons b as ih =>
    obtain ⟨s', hs', hrun⟩ := run_cons_some h
    simp only [List.cons_append, Meets, hs', ih hrun, and_assoc]

/-- A schedule's condition can be checked by running it. -/
instance instDecidableMeets [hP : ∀ s a, Decidable (P s a)] :
    ∀ (s : σ) (as : List α), Decidable (Meets step P s as)
  | _, [] => isTrue trivial
  | s, a :: as =>
    match hs : step s a, hP s a with
    | _, isFalse hp => isFalse fun h => hp h.1
    | none, isTrue hp => isTrue ⟨hp, by rw [hs]; trivial⟩
    | some t, isTrue hp =>
      match instDecidableMeets t as with
      | isTrue ht => isTrue ⟨hp, by rw [hs]; exact ht⟩
      | isFalse ht => isFalse fun h => ht (by have h2 := h.2; rw [hs] at h2; exact h2)

/-- Somewhere on the schedule `as` from `s`, the action `a` is taken in a state with `Q`. -/
def Took (step : σ → α → Option σ) (s : σ) (as : List α) (a : α) (Q : σ → Prop) : Prop :=
  ∃ bs cs u, as = bs ++ a :: cs ∧ run step s bs = some u ∧ Q u

theorem Took.snoc {s : σ} {as : List α} {a : α} {Q : σ → Prop} (h : Took step s as a Q) (b : α) :
    Took step s (as ++ [b]) a Q := by
  obtain ⟨bs, cs, u, rfl, hu, hQ⟩ := h
  exact ⟨bs, cs ++ [b], u, by rw [List.append_assoc, List.cons_append], hu, hQ⟩

theorem Took.imp {s : σ} {as : List α} {a : α} {Q R : σ → Prop} (h : Took step s as a Q)
    (hQR : ∀ u, Q u → R u) : Took step s as a R := by
  obtain ⟨bs, cs, u, heq, hu, hQ⟩ := h
  exact ⟨bs, cs, u, heq, hu, hQR u hQ⟩

theorem took_last {s u : σ} {as : List α} {a : α} {Q : σ → Prop} (h : run step s as = some u)
    (hQ : Q u) : Took step s (as ++ [a]) a Q :=
  ⟨as, [], u, rfl, h, hQ⟩

/-- What was taken on a schedule in two parts was taken on one of them. -/
theorem Took.of_append {s u : σ} {as bs : List α} {a : α} {Q : σ → Prop}
    (hu : run step s as = some u) (h : Took step s (as ++ bs) a Q) :
    Took step s as a Q ∨ Took step u bs a Q := by
  obtain ⟨cs, ds, v, heq, hv, hQ⟩ := h
  have hlater : ∀ es, cs = as ++ es → bs = es ++ a :: ds → Took step u bs a Q := by
    rintro es rfl hbs
    obtain ⟨u', hu', hes⟩ := run_append.mp hv
    obtain rfl : u = u' := Option.some.inj (hu.symm.trans hu')
    exact ⟨es, ds, v, hbs, hes, hQ⟩
  rcases List.append_eq_append_iff.mp heq with ⟨es, hcs, hbs⟩ | ⟨es, has, hds⟩
  · exact Or.inr (hlater es hcs hbs)
  · cases es with
    | nil => exact Or.inr (hlater [] (by simpa using has.symm) hds.symm)
    | cons e es =>
      obtain ⟨rfl, -⟩ := List.cons.inj hds
      exact Or.inl ⟨cs, es, v, has, hv, hQ⟩

/-- The same for a schedule of one action. -/
theorem took_one {s : σ} {a b : α} {Q : σ → Prop} (h : Took step s [b] a Q) : a = b ∧ Q s := by
  obtain ⟨cs, ds, v, heq, hv, hQ⟩ := h
  cases cs with
  | nil =>
    obtain rfl : s = v := Option.some.inj hv
    exact ⟨(List.cons.inj heq).1.symm, hQ⟩
  | cons c cs => simp at heq

/-- What was taken somewhere on a schedule was taken before its last action, or is that. -/
theorem Took.of_snoc {s u : σ} {as : List α} {a b : α} {Q : σ → Prop}
    (hu : run step s as = some u) (h : Took step s (as ++ [b]) a Q) :
    Took step s as a Q ∨ (a = b ∧ Q u) :=
  (h.of_append hu).imp_right took_one

/-! ## What a bystander writes down -/

/-- The record of a run: `note` says what a step adds to it. -/
def scribe {β : Type} (step : σ → α → Option σ) (note : σ → β → α → β) : σ → β → List α → β
  | _, b, [] => b
  | s, b, a :: as =>
    match step s a with
    | some t => scribe step note t (note s b a) as
    | none => b

theorem scribe_snoc {β : Type} {note : σ → β → α → β} {s u t : σ} {b : β} {as : List α} {a : α}
    (hu : run step s as = some u) (ht : step u a = some t) :
    scribe step note s b (as ++ [a]) = note u (scribe step note s b as) a := by
  induction as generalizing s b with
  | nil =>
    obtain rfl : s = u := Option.some.inj hu
    simp only [List.nil_append, scribe, ht]
  | cons c as ih =>
    obtain ⟨s', hs', hrun⟩ := run_cons_some hu
    simp only [List.cons_append, scribe, hs', ih hrun]

/-! ## The three rules -/

/-- **Invariant rule with a history.**  A relation between the state and the actions taken so
    far that holds at the start, and that every step taken along the run keeps, holds at the end
    of the run.  The step may use that it is taken on the run (`hrun`). -/
theorem run_history {I : σ → List α → Prop} {s₀ : σ} (h0 : I s₀ [])
    (hstep : ∀ as s a t, run step s₀ as = some s → I s as → step s a = some t → I t (as ++ [a]))
    {as : List α} {t : σ} (hrun : run step s₀ as = some t) : I t as := by
  -- induction on the schedule from its end: the last action is the one that was just taken
  induction as using List.reverseRecOn generalizing t with
  | nil =>
    obtain rfl : s₀ = t := Option.some.inj hrun
    exact h0
  | append_singleton as a ih =>
    obtain ⟨u, hu, ht⟩ := run_snoc.mp hrun
    exact hstep as u a t hu (ih hu) ht

/-- **Origin rule.**  Where one action only sets a field, and sets it to what `g` reads, a field
    that is set was set by that action, to what `g` read then. -/
theorem took_of_set {β : Type} {f : σ → Option β} {g : σ → β} {b : α} {s₀ : σ} (h0 : f s₀ = none)
    (hset : ∀ s a t, step s a = some t → f t = f s ∨ (a = b ∧ f t = some (g s)))
    {as : List α} {t : σ} (hrun : run step s₀ as = some t) {x : β} (hx : f t = some x) :
    Took step s₀ as b fun u => g u = x := by
  refine run_history (I := fun t as => ∀ x, f t = some x → Took step s₀ as b fun u => g u = x)
    (fun x hx => ?_) ?_ hrun x hx
  · rw [h0] at hx
    cases hx
  · intro as s a t hs ih ht x hx
    rcases hset s a t ht with hsame | ⟨rfl, hnew⟩
    · exact (ih x (hsame.symm.trans hx)).snoc a
    · exact took_last hs (Option.some.inj (hnew.symm.trans hx))

/-- **Invariant rule.**  What every step preserves, every run preserves. -/
theorem run_inv {I : σ → Prop} (hstep : ∀ s a t, I s → step s a = some t → I t)
    {s t : σ} {as : List α} (hs : I s) (hrun : run step s as = some t) : I t :=
  run_history (I := fun u _ => I u) hs (fun _ u a v _ hu hv => hstep u a v hu hv) hrun

/-- **Invariant rule under a condition.**  What every step that meets `P` preserves is preserved
    by every run whose steps all meet `P`. -/
theorem run_inv_meets {I : σ → Prop} (hstep : ∀ s a t, I s → P s a → step s a = some t → I t)
    {s t : σ} {as : List α} (hs : I s) (hm : Meets step P s as)
    (hrun : run step s as = some t) : I t := by
  refine run_history (I := fun u bs => Meets step P s bs → I u) (fun _ => hs) ?_ hrun hm
  intro bs u a v hu ih hv hmeets
  obtain ⟨hbs, hP⟩ := (meets_snoc hu).mp hmeets
  exact hstep u a v (ih hbs) hP hv

/-- **Exactness rule.**  Let `I` be what the condition `P` maintains, and let a step from an
    `I`-state reach a state with the property `Q` exactly if it meets `P`.  Then the property
    holds all along a run exactly if all its steps meet the condition. -/
theorem always_iff_meets {I Q : σ → List α → Prop} {s₀ : σ} (h0 : I s₀ []) (hQ0 : Q s₀ [])
    (hkeep : ∀ as s a t, run step s₀ as = some s → I s as → P s a → step s a = some t →
      I t (as ++ [a]))
    (hexact : ∀ as s a t, run step s₀ as = some s → I s as → step s a = some t →
      (Q t (as ++ [a]) ↔ P s a))
    {as : List α} {t : σ} (hrun : run step s₀ as = some t) :
    (∀ bs u, bs <+: as → run step s₀ bs = some u → Q u bs) ↔ Meets step P s₀ as := by
  -- along the induction the invariant is at hand as long as the condition was met
  suffices h : ((∀ bs u, bs <+: as → run step s₀ bs = some u → Q u bs) ↔ Meets step P s₀ as) ∧
      (Meets step P s₀ as → I t as) from h.1
  refine run_history (I := fun t as => ((∀ bs u, bs <+: as → run step s₀ bs = some u → Q u bs) ↔
    Meets step P s₀ as) ∧ (Meets step P s₀ as → I t as)) ?_ ?_ hrun
  · refine ⟨⟨fun _ => trivial, fun _ bs u hbs hu => ?_⟩, fun _ => h0⟩
    obtain rfl := List.prefix_nil.mp hbs
    obtain rfl : s₀ = u := Option.some.inj hu
    exact hQ0
  · intro as s a t hs ⟨hiff, hI⟩ ht
    have hrun' : run step s₀ (as ++ [a]) = some t := run_snoc.mpr ⟨s, hs, ht⟩
    rw [meets_snoc hs]
    refine ⟨⟨fun h => ?_, fun ⟨hmeets, hP⟩ bs u hbs hu => ?_⟩, fun ⟨hmeets, hP⟩ =>
      hkeep as s a t hs (hI hmeets) hP ht⟩
    · have hmeets : Meets step P s₀ as := hiff.mp fun bs u hbs hu =>
        h bs u (hbs.trans (List.prefix_append as [a])) hu
      exact ⟨hmeets, (hexact as s a t hs (hI hmeets) ht).mp (h _ t List.prefix_rfl hrun')⟩
    · rcases List.prefix_concat_iff.mp hbs with rfl | hbs
      · obtain rfl : t = u := Option.some.inj (hrun'.symm.trans hu)
        exact (hexact as s a t hs (hI hmeets) ht).mpr hP
      · exact hiff.mpr hmeets bs u hbs hu

end Machine
