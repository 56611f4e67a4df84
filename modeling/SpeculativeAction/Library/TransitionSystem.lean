import Mathlib.Data.List.Induction

/-! Runs of deterministic labelled systems and the invariant rules for them.
A total system is folded over its labels; a guarded one may refuse a label with `none`.
-/

namespace SpeculativeAction.Library

variable {σ α : Type*} {step : σ → α → σ} {start : σ} {labels : List α}

-- Total systems

/-- The state after taking every label in order. -/
def runAll (step : σ → α → σ) (start : σ) (labels : List α) : σ :=
  labels.foldl step start

@[simp] theorem runAll_nil (step : σ → α → σ) (start : σ) : runAll step start [] = start := rfl

/-- The last label of a run is one step from the state before it. -/
theorem runAll_snoc (step : σ → α → σ) (start : σ) (labels : List α) (label : α)
    : runAll step start (labels ++ [label]) = step (runAll step start labels) label := by
  simp [runAll]

theorem runAll_append (step : σ → α → σ) (start : σ) (first second : List α)
    : runAll step start (first ++ second) = runAll step (runAll step start first) second := by
  simp [runAll]

/-- A predicate kept by every step holds after every run from a state that has it. -/
theorem runAll_invariant (holds : σ → Prop) (base : holds start)
    (kept : ∀ state label, holds state → holds (step state label)) (labels : List α)
    : holds (runAll step start labels) := by
  induction labels using List.reverseRecOn with
  | nil => exact base
  | append_singleton labels label ih =>
      rw [runAll_snoc]
      exact kept _ label ih

/-- A predicate kept by the steps whose labels are `allowed` holds after every run of
such labels.
-/
theorem runAll_invariant_of_allowed (holds : σ → Prop) (allowed : α → Prop) (base : holds start)
    (kept : ∀ state label, allowed label → holds state → holds (step state label)) (labels : List α)
    (all : ∀ label ∈ labels, allowed label)
    : holds (runAll step start labels) := by
  induction labels using List.reverseRecOn with
  | nil => exact base
  | append_singleton labels label ih =>
      rw [runAll_snoc]
      exact kept _ label (all label (by simp)) (ih fun other member => all other (by simp [member]))

/-- Every step of the run from `state` satisfies `meets` in the state it is taken from. -/
def RunAllMeets (step : σ → α → σ) (meets : σ → α → Prop) : σ → List α → Prop
  | _, [] => True
  | state, label :: rest => meets state label ∧ RunAllMeets step meets (step state label) rest

instance instDecidableRunAllMeets (step : σ → α → σ) (meets : σ → α → Prop) [∀ state label, Decidable (meets state label)]
    : ∀ (state : σ) (labels : List α), Decidable (RunAllMeets step meets state labels)
  | _, [] => .isTrue trivial
  | state, label :: rest =>
      haveI := instDecidableRunAllMeets step meets (step state label) rest
      inferInstanceAs (Decidable (meets state label ∧ _))

/-- The steps of two runs in a row meet a condition when those of each do. -/
theorem runAllMeets_append {meets : σ → α → Prop} {first second : List α}
    : RunAllMeets step meets start (first ++ second)
      ↔ RunAllMeets step meets start first
        ∧ RunAllMeets step meets (runAll step start first) second := by
  induction first generalizing start with
  | nil => simp [RunAllMeets]
  | cons label rest ih => simp [RunAllMeets, ih, runAll, and_assoc]

/-- A predicate kept by every step that meets a condition holds after every run whose
steps all meet it.
-/
theorem runAll_invariant_of_meets (holds : σ → Prop) (meets : σ → α → Prop)
    (kept : ∀ state label, holds state → meets state label → holds (step state label))
    (base : holds start) (met : RunAllMeets step meets start labels)
    : holds (runAll step start labels) := by
  induction labels generalizing start with
  | nil => exact base
  | cons label rest ih => exact ih (kept start label base met.1) met.2

-- Guarded systems

/-- Take every label in order; the run fails at the first label that is not enabled. -/
def runFrom (step : σ → α → Option σ) : σ → List α → Option σ
  | state, [] => some state
  | state, label :: rest => (step state label).bind fun next => runFrom step next rest

@[simp] theorem runFrom_nil (step : σ → α → Option σ) (state : σ)
    : runFrom step state [] = some state := rfl

/-- A successful nonempty run starts with one enabled step. -/
theorem runFrom_cons {step : σ → α → Option σ} {state final : σ} {label : α} {rest : List α}
    : runFrom step state (label :: rest) = some final
      ↔ ∃ next, step state label = some next ∧ runFrom step next rest = some final := by
  simp only [runFrom, Option.bind_eq_some_iff]

/-- Runs compose. -/
theorem runFrom_append {step : σ → α → Option σ} {state final : σ} {first second : List α}
    : runFrom step state (first ++ second) = some final
      ↔ ∃ middle,
          runFrom step state first = some middle ∧ runFrom step middle second = some final := by
  induction first generalizing state with
  | nil => simp
  | cons label rest ih =>
      simp only [List.cons_append, runFrom_cons, ih]
      grind

/-- A predicate kept by every enabled step holds after every run. -/
theorem runFrom_invariant {step : σ → α → Option σ} (holds : σ → Prop)
    (kept : ∀ state label next, holds state → step state label = some next → holds next) {final : σ}
    (base : holds start) (run : runFrom step start labels = some final)
    : holds final := by
  induction labels generalizing start with
  | nil => exact Option.some.inj run ▸ base
  | cons label rest ih =>
      obtain ⟨next, taken, later⟩ := runFrom_cons.mp run
      exact ih (kept start label next base taken) later

/-- A predicate on the labels taken so far and the state they lead to, kept by every
enabled step, holds of every run and its final state.
-/
theorem runFrom_trace_invariant {step : σ → α → Option σ} (holds : List α → σ → Prop) {final : σ}
    (base : holds [] start)
    (kept
      : ∀ taken state label next,
          holds taken state → step state label = some next → holds (taken ++ [label]) next)
    (run : runFrom step start labels = some final)
    : holds labels final := by
  induction labels using List.reverseRecOn generalizing final with
  | nil => exact Option.some.inj run ▸ base
  | append_singleton labels label ih =>
      obtain ⟨middle, before, last⟩ := runFrom_append.mp run
      obtain ⟨next, taken, done⟩ := runFrom_cons.mp last
      exact Option.some.inj done ▸ kept labels middle label next (ih before) taken

/-- Simulation by an acceptor: when every step of a total system extends its observed
trace by events the acceptor takes, and keeps a relation between the two, the trace of
every run is accepted.
-/
theorem runAll_accepted {β γ : Type*} {accept : γ → β → Option γ} {first : γ} (trace : σ → List β)
    (related : σ → γ → Prop) (silent : trace start = []) (base : related start first)
    (kept
      : ∀ state accepted label,
          related state accepted
          → ∃ events next,
              trace (step state label) = trace state ++ events
              ∧ runFrom accept accepted events = some next
              ∧ related (step state label) next)
    (labels : List α)
    : ∃ accepted,
        runFrom accept first (trace (runAll step start labels)) = some accepted
        ∧ related (runAll step start labels) accepted := by
  induction labels using List.reverseRecOn with
  | nil => exact ⟨first, by simp [silent], base⟩
  | append_singleton labels label ih =>
      obtain ⟨accepted, run, relation⟩ := ih
      obtain ⟨events, next, extended, taken, relation⟩ := kept _ _ label relation
      rw [runAll_snoc, extended]
      exact ⟨next, runFrom_append.mpr ⟨accepted, run, taken⟩, relation⟩

end SpeculativeAction.Library
