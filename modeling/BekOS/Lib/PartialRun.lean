import Mathlib.Data.List.Basic

/-!
# Runs of a partial step function

A component that may stop — on a failed assertion, say — is a function
`step : σ → α → Option (σ × β)`: from a state and an input it either stops
(`none`) or yields the next state and an output.  `runSteps` folds `step` over a
list of inputs and `StepsMeet` says that a condition holds at every state the
run visits, for the input consumed there.

The induction rules are packaged here so that no component repeats them, among them:

* `runSteps_invariant` — a property that every step meeting the condition
  preserves holds in every state such a run reaches;
* `runSteps_good_iff` — when a condition is both sufficient and necessary for a
  step to stay good, a run stays good exactly when all its steps meet it;
* `stepsMeet_iff` — where an invariant makes two conditions on a step the same, the
  steps of a run all meet the one exactly when they all meet the other;
* `runSteps_simulates` — if every step meeting the condition succeeds, agrees
  with a reference machine and keeps the states related, then a run whose steps
  all meet it succeeds, agrees with the reference run, and ends related;
* `runSteps_refines` — if two machines fail on the same inputs and otherwise stay
  related with the same outputs, then so do their runs;
* `runSteps_follows` — if a machine follows another one in every step that meets a
  condition, then it does so in a run whose steps all meet it.
-/

namespace PartialRun

universe u v w x

variable {σ : Type u} {α : Type v} {β : Type w} {τ : Type x}

/-- Run a list of inputs from a state, collecting the outputs.  The run stops
with `none` at the first step that does. -/
def runSteps (step : σ → α → Option (σ × β)) : σ → List α → Option (σ × List β)
  | state, [] => some (state, [])
  | state, input :: rest =>
      (step state input).bind fun moved =>
        (runSteps step moved.1 rest).map fun final => (final.1, moved.2 :: final.2)

@[simp] theorem runSteps_nil (step : σ → α → Option (σ × β)) (state : σ) :
    runSteps step state [] = some (state, []) := rfl

theorem runSteps_cons (step : σ → α → Option (σ × β)) (state : σ) (input : α)
    (rest : List α) :
    runSteps step state (input :: rest) =
      (step state input).bind fun moved =>
        (runSteps step moved.1 rest).map fun final =>
          (final.1, moved.2 :: final.2) := rfl

variable {step : σ → α → Option (σ × β)} {state : σ} {cond : σ → α → Prop} {inv : σ → Prop}

/-- A completed run splits at its first step. -/
theorem runSteps_cons_eq_some {input : α} {rest : List α} {final : σ × List β}
    (h : runSteps step state (input :: rest) = some final) :
    ∃ moved tail, step state input = some moved ∧
      runSteps step moved.1 rest = some tail ∧
      final = (tail.1, moved.2 :: tail.2) := by
  rw [runSteps_cons, Option.bind_eq_some_iff] at h
  obtain ⟨moved, hstep, hrest⟩ := h
  rw [Option.map_eq_some_iff] at hrest
  obtain ⟨tail, htail, rfl⟩ := hrest
  exact ⟨moved, tail, hstep, htail, rfl⟩

/-- A run over two lists is a run over the first and one over the second from
where it ends. -/
theorem runSteps_append {inputs later : List α} {mid final : σ × List β}
    (h : runSteps step state inputs = some mid) (h' : runSteps step mid.1 later = some final) :
    runSteps step state (inputs ++ later) = some (final.1, mid.2 ++ final.2) := by
  induction inputs generalizing state mid with
  | nil =>
      cases h
      exact h'
  | cons input rest ih =>
      obtain ⟨moved, tail, hstep, hrest, rfl⟩ := runSteps_cons_eq_some h
      rw [List.cons_append, runSteps_cons, hstep, Option.bind_some, ih hrest h']
      rfl

/-- `cond` holds at every state the run of `inputs` visits, for the input
consumed there. -/
def StepsMeet (step : σ → α → Option (σ × β)) (cond : σ → α → Prop) :
    σ → List α → Prop
  | _, [] => True
  | state, input :: rest =>
      cond state input ∧
        ∀ moved ∈ step state input, StepsMeet step cond moved.1 rest

instance decidableStepsMeet (step : σ → α → Option (σ × β)) (cond : σ → α → Prop)
    [∀ state input, Decidable (cond state input)] :
    ∀ (state : σ) (inputs : List α), Decidable (StepsMeet step cond state inputs)
  | _, [] => isTrue trivial
  | state, input :: rest =>
      have := fun moved : σ × β => decidableStepsMeet step cond moved.1 rest
      inferInstanceAs (Decidable (cond state input ∧
        ∀ moved ∈ step state input, StepsMeet step cond moved.1 rest))

theorem stepsMeet_cons {input : α} {rest : List α} :
    StepsMeet step cond state (input :: rest) ↔
      cond state input ∧
        ∀ moved ∈ step state input, StepsMeet step cond moved.1 rest := Iff.rfl

/-- Two conditions are met along a run where both together are. -/
theorem stepsMeet_and {cond' : σ → α → Prop} :
    ∀ {inputs : List α} {state : σ},
      StepsMeet step (fun state input => cond state input ∧ cond' state input) state inputs ↔
        StepsMeet step cond state inputs ∧ StepsMeet step cond' state inputs := by
  intro inputs
  induction inputs with
  | nil => exact fun {_} => (and_self_iff).symm
  | cons input rest ih =>
      intro state
      rw [stepsMeet_cons, stepsMeet_cons, stepsMeet_cons]
      constructor
      · rintro ⟨⟨hcond, hcond'⟩, hrest⟩
        exact ⟨⟨hcond, fun moved hmoved => (ih.mp (hrest moved hmoved)).1⟩,
          hcond', fun moved hmoved => (ih.mp (hrest moved hmoved)).2⟩
      · rintro ⟨⟨hcond, hrest⟩, hcond', hrest'⟩
        exact ⟨⟨hcond, hcond'⟩, fun moved hmoved => ih.mpr ⟨hrest moved hmoved, hrest' moved hmoved⟩⟩

/-- A condition met along a run and along one from where it ends is met along
both together. -/
theorem StepsMeet.append {step : σ → α → Option (σ × β)} {cond : σ → α → Prop}
    {inputs later : List α} {state : σ} {mid : σ × List β}
    (h : runSteps step state inputs = some mid) (first : StepsMeet step cond state inputs)
    (second : StepsMeet step cond mid.1 later) :
    StepsMeet step cond state (inputs ++ later) := by
  induction inputs generalizing state mid with
  | nil =>
      cases h
      exact second
  | cons input rest ih =>
      obtain ⟨moved, tail, hstep, hrest, rfl⟩ := runSteps_cons_eq_some h
      refine stepsMeet_cons.mpr ⟨first.1, fun moved' hmoved' => ?_⟩
      have heq : moved = moved' := Option.some_inj.mp (hstep.symm.trans hmoved')
      subst heq
      exact ih hrest (first.2 moved hstep) second

/-- A condition on the inputs alone can be added to one met along the run. -/
theorem StepsMeet.and_forall {step : σ → α → Option (σ × β)} {cond : σ → α → Prop}
    {p : α → Prop} {inputs : List α} {state : σ} (h : StepsMeet step cond state inputs)
    (hp : ∀ input ∈ inputs, p input) :
    StepsMeet step (fun state input => cond state input ∧ p input) state inputs := by
  induction inputs generalizing state with
  | nil => trivial
  | cons input rest ih =>
      refine stepsMeet_cons.mpr ⟨⟨h.1, hp input (by simp)⟩, fun moved hmoved => ?_⟩
      exact ih (h.2 moved hmoved) fun other hother => hp other (by simp [hother])

/-- A condition met along a run is met along every prefix of it. -/
theorem StepsMeet.take {step : σ → α → Option (σ × β)} {cond : σ → α → Prop} :
    ∀ {inputs : List α} {state : σ}, StepsMeet step cond state inputs → ∀ n,
      StepsMeet step cond state (inputs.take n) := by
  intro inputs
  induction inputs with
  | nil => intro state h n; rwa [List.take_nil]
  | cons input rest ih =>
      intro state h n
      cases n with
      | zero => trivial
      | succ n => exact ⟨h.1, fun moved hmoved => ih (h.2 moved hmoved) n⟩

/-- Where a run whose steps meet a condition has got to, its next step meets it. -/
theorem StepsMeet.at {step : σ → α → Option (σ × β)} {cond : σ → α → Prop} :
    ∀ {inputs : List α} {n : ℕ} {state : σ} {final : σ × List β} {input : α},
      StepsMeet step cond state inputs → runSteps step state (inputs.take n) = some final →
      inputs[n]? = some input → cond final.1 input := by
  intro inputs
  induction inputs with
  | nil =>
      intro n state final input _ _ hinput
      cases hinput
  | cons first rest ih =>
      intro n state final input h hrun hinput
      cases n with
      | zero =>
          cases hrun
          cases hinput
          exact h.1
      | succ n =>
          obtain ⟨moved, tail, hstep, hrest, rfl⟩ := runSteps_cons_eq_some hrun
          have hcond := ih (h.2 moved hstep) hrest hinput
          exact hcond

/-- **The invariant rule.**  What every step meeting `cond` preserves holds
wherever a run whose steps all meet `cond` ends. -/
theorem runSteps_invariant {step : σ → α → Option (σ × β)} {cond : σ → α → Prop}
    {inv : σ → Prop}
    (preserved : ∀ state input moved, inv state → cond state input →
      step state input = some moved → inv moved.1) :
    ∀ {inputs : List α} {state : σ} {final : σ × List β}, inv state →
      StepsMeet step cond state inputs →
      runSteps step state inputs = some final → inv final.1 := by
  intro inputs
  induction inputs with
  | nil =>
      intro state final hinv _ hrun
      cases hrun
      exact hinv
  | cons input rest ih =>
      intro state final hinv hmeet hrun
      obtain ⟨moved, tail, hstep, hrest, rfl⟩ := runSteps_cons_eq_some hrun
      have hmoved := preserved state input moved hinv hmeet.1 hstep
      have htail := ih hmoved (hmeet.2 moved hstep) hrest
      exact htail

/-- What every step preserves holds wherever a run ends. -/
theorem runSteps_keeps {step : σ → α → Option (σ × β)} {inv : σ → Prop}
    (preserved : ∀ state input moved, inv state → step state input = some moved → inv moved.1) :
    ∀ {inputs : List α} {state : σ} {final : σ × List β}, inv state →
      runSteps step state inputs = some final → inv final.1 := by
  intro inputs
  induction inputs with
  | nil =>
      intro state final hinv hrun
      cases hrun
      exact hinv
  | cons input rest ih =>
      intro state final hinv hrun
      obtain ⟨moved, tail, hstep, hrest, rfl⟩ := runSteps_cons_eq_some hrun
      have htail := ih (preserved state input moved hinv hstep) hrest
      exact htail

/-- **The invariant rule, with a history.**  A property of the state and of the outputs
so far, kept by every step that meets `cond`, holds wherever such a run ends, of the
outputs of the whole run. -/
theorem runSteps_history {step : σ → α → Option (σ × β)} {cond : α → Prop}
    {inv : List β → σ → Prop}
    (preserved : ∀ outs state input moved, inv outs state → cond input →
      step state input = some moved → inv (outs ++ [moved.2]) moved.1) :
    ∀ {inputs : List α} {outs : List β} {state : σ} {final : σ × List β}, inv outs state →
      (∀ input ∈ inputs, cond input) → runSteps step state inputs = some final →
      inv (outs ++ final.2) final.1 := by
  intro inputs
  induction inputs with
  | nil =>
      intro outs state final hinv _ hrun
      cases hrun
      rwa [List.append_nil]
  | cons input rest ih =>
      intro outs state final hinv hcond hrun
      obtain ⟨hinput, hrest⟩ := List.forall_mem_cons.mp hcond
      obtain ⟨moved, tail, hstep, htail, rfl⟩ := runSteps_cons_eq_some hrun
      have hfinal := ih (preserved outs state input moved hinv hinput hstep) hrest htail
      rwa [List.append_assoc] at hfinal

/-- **The completion rule, with outputs.**  If a step from `inv` that meets `cond`
succeeds, keeps `inv` and has an allowed output, then every prefix of a run whose
steps all meet `cond` completes, in a state with `inv` and with allowed outputs. -/
theorem runSteps_completes_allowed (allowed : β → Prop)
    (keeps : ∀ state input, inv state → cond state input →
      ∃ moved, step state input = some moved ∧ inv moved.1 ∧ allowed moved.2) :
    ∀ {inputs : List α} {state : σ}, inv state → StepsMeet step cond state inputs →
      ∀ n, ∃ final, runSteps step state (inputs.take n) = some final ∧ inv final.1 ∧
        ∀ out ∈ final.2, allowed out := by
  intro inputs
  induction inputs with
  | nil => exact fun {state} hinv _ n => ⟨(state, []), by simp, hinv, by simp⟩
  | cons input rest ih =>
      intro state hinv hmeet n
      obtain ⟨moved, hstep, hinv', hallowed⟩ := keeps state input hinv hmeet.1
      cases n with
      | zero => exact ⟨(state, []), rfl, hinv, by simp⟩
      | succ n =>
          obtain ⟨final, hrun, hfinal, houts⟩ := ih hinv' (hmeet.2 moved hstep) n
          refine ⟨(final.1, moved.2 :: final.2), ?_, hfinal, ?_⟩
          · rw [List.take_succ_cons, runSteps_cons, hstep, Option.bind_some, hrun,
              Option.map_some]
          · intro out hout
            rcases List.mem_cons.mp hout with rfl | hout
            · exact hallowed
            · exact houts out hout

/-- **The completion rule.**  If a step from `inv` that meets `cond` succeeds and
keeps `inv`, then every prefix of a run whose steps all meet `cond` completes, in
a state with `inv`. -/
theorem runSteps_completes (keeps : ∀ state input, inv state → cond state input →
      ∃ moved, step state input = some moved ∧ inv moved.1) :
    ∀ {inputs : List α} {state : σ}, inv state → StepsMeet step cond state inputs →
      ∀ n, ∃ final, runSteps step state (inputs.take n) = some final ∧ inv final.1 := by
  intro inputs state hinv hmeet n
  obtain ⟨final, hrun, hfinal, -⟩ :=
    runSteps_completes_allowed (fun _ => True) (fun state input hinv hcond => by
      obtain ⟨moved, hstep, hinv'⟩ := keeps state input hinv hcond
      exact ⟨moved, hstep, hinv', trivial⟩) hinv hmeet n
  exact ⟨final, hrun, hfinal⟩

/-- **The exactness rule.**  Suppose `inv` implies `good`, a step from `inv` that
meets `cond` succeeds and keeps `inv`, and a step from `inv` that ends in `good`
met `cond`.  Then every prefix of a run completes in a `good` state exactly when
every step of the run meets `cond`. -/
theorem runSteps_good_iff {good : σ → Prop} (sound : ∀ state, inv state → good state)
    (keeps : ∀ state input, inv state → cond state input →
      ∃ moved, step state input = some moved ∧ inv moved.1)
    (needs : ∀ state input moved, inv state → step state input = some moved →
      good moved.1 → cond state input) :
    ∀ {inputs : List α} {state : σ}, inv state →
      ((∀ n, ∃ final, runSteps step state (inputs.take n) = some final ∧ good final.1) ↔
        StepsMeet step cond state inputs) := by
  intro inputs
  induction inputs with
  | nil =>
      intro state hinv
      exact ⟨fun _ => trivial, fun _ n => ⟨(state, []), by simp, sound state hinv⟩⟩
  | cons input rest ih =>
      intro state hinv
      constructor
      · intro hgood
        obtain ⟨final, hrun, hfinal⟩ := hgood 1
        obtain ⟨moved, tail, hstep, htail, rfl⟩ := runSteps_cons_eq_some hrun
        cases htail
        have hcond := needs state input moved hinv hstep hfinal
        refine ⟨hcond, fun moved' hmoved' => ?_⟩
        obtain ⟨next, hnext, hinv'⟩ := keeps state input hinv hcond
        rw [Option.mem_def, hnext, Option.some_inj] at hmoved'
        subst hmoved'
        refine (ih hinv').mp fun n => ?_
        obtain ⟨final, hrun, hfinal⟩ := hgood (n + 1)
        obtain ⟨moved, tail, hstep, htail, rfl⟩ := runSteps_cons_eq_some hrun
        rw [hnext, Option.some_inj] at hstep
        subst hstep
        exact ⟨tail, htail, hfinal⟩
      · rintro ⟨hcond, hmeet⟩ n
        obtain ⟨final, hrun, hfinal⟩ := runSteps_completes keeps hinv
          (stepsMeet_cons.mpr ⟨hcond, hmeet⟩) n
        exact ⟨final, hrun, sound final.1 hfinal⟩

theorem filterMap_cons_toList {γ : Type x} (f : β → Option γ) (out : β) (outs : List β) :
    (out :: outs).filterMap f = (f out).toList ++ outs.filterMap f := by
  cases h : f out with
  | none => rw [List.filterMap_cons_none h, Option.toList_none, List.nil_append]
  | some c => rw [List.filterMap_cons_some h, Option.toList_some, List.singleton_append]

/-- **The conservation rule.**  If each step takes what it gives out from the front of
what is held and puts what it takes in at the end, then over a run what was held and
what came in is what went out and what is held at the end. -/
theorem runSteps_conserves {γ : Type x} (hold : σ → List γ) (came went : β → Option γ)
    (conserved : ∀ state input moved, inv state → cond state input →
      step state input = some moved →
        inv moved.1 ∧
          hold state ++ (came moved.2).toList = (went moved.2).toList ++ hold moved.1) :
    ∀ {inputs : List α} {state : σ} {final : σ × List β}, inv state →
      StepsMeet step cond state inputs → runSteps step state inputs = some final →
      hold state ++ final.2.filterMap came = final.2.filterMap went ++ hold final.1 := by
  intro inputs
  induction inputs with
  | nil =>
      intro state final _ _ hrun
      cases hrun
      exact List.append_nil _
  | cons input rest ih =>
      intro state final hinv hmeet hrun
      obtain ⟨moved, tail, hstep, hrest, rfl⟩ := runSteps_cons_eq_some hrun
      obtain ⟨hinv', hone⟩ := conserved state input moved hinv hmeet.1 hstep
      have htail := ih hinv' (hmeet.2 moved hstep) hrest
      rw [filterMap_cons_toList, filterMap_cons_toList, ← List.append_assoc, hone,
        List.append_assoc, htail, List.append_assoc]

/-- **The exactness rule.**  If wherever an invariant holds one condition is met exactly when
another is, and steps that meet the other keep the invariant, then the steps of a run all
meet the one exactly when they all meet the other. -/
theorem stepsMeet_iff {step : σ → α → Option (σ × β)} {good cond : σ → α → Prop}
    {inv : σ → Prop} (exact_at : ∀ state input, inv state → (good state input ↔ cond state input))
    (keeps : ∀ state input moved, inv state → cond state input →
      step state input = some moved → inv moved.1) :
    ∀ {inputs : List α} {state : σ}, inv state →
      (StepsMeet step good state inputs ↔ StepsMeet step cond state inputs) := by
  intro inputs
  induction inputs with
  | nil => exact fun _ => Iff.rfl
  | cons input rest ih =>
      intro state hinv
      rw [stepsMeet_cons, stepsMeet_cons, exact_at state input hinv]
      refine and_congr_right fun hcond => ?_
      exact forall₂_congr fun moved hmoved => ih (keeps state input moved hinv hcond hmoved)

/-- The outputs of a run agree, one by one, with what a reference machine with
states `τ` and transition `next` allows. -/
def Agrees (next : τ → α → τ) (agree : τ → α → β → Prop) :
    τ → List α → List β → Prop
  | _, [], [] => True
  | ref, input :: rest, out :: outs =>
      agree ref input out ∧ Agrees next agree (next ref input) rest outs
  | _, _, _ => False

/-- **The simulation rule.**  A run whose steps all meet `cond` completes, its
outputs agree with the reference run, and the final states are related. -/
theorem runSteps_simulates {step : σ → α → Option (σ × β)} {cond : σ → α → Prop}
    {next : τ → α → τ} {agree : τ → α → β → Prop} {related : σ → τ → Prop}
    (simulated : ∀ state ref input, related state ref → cond state input →
      ∃ moved, step state input = some moved ∧ agree ref input moved.2 ∧
        related moved.1 (next ref input)) :
    ∀ {inputs : List α} {state : σ} {ref : τ}, related state ref →
      StepsMeet step cond state inputs →
      ∃ final, runSteps step state inputs = some final ∧
        Agrees next agree ref inputs final.2 ∧
        related final.1 (inputs.foldl next ref) := by
  intro inputs
  induction inputs with
  | nil =>
      intro state ref hrel _
      exact ⟨(state, []), rfl, trivial, hrel⟩
  | cons input rest ih =>
      intro state ref hrel hmeet
      obtain ⟨moved, hstep, hagree, hrel'⟩ := simulated state ref input hrel hmeet.1
      obtain ⟨final, hrun, hagrees, hfinal⟩ := ih hrel' (hmeet.2 moved hstep)
      refine ⟨(final.1, moved.2 :: final.2), ?_, ⟨hagree, hagrees⟩, hfinal⟩
      rw [runSteps_cons, hstep, Option.bind_some, hrun, Option.map_some]

/-- **The trace rule.**  If where a property of what was given out and of the state holds each step
that meets the condition succeeds and keeps it, then so does a run whose steps all meet it. -/
theorem runSteps_traces {inv : List β → σ → Prop}
    (keeps : ∀ outs state input, inv outs state → cond state input →
      ∃ moved, step state input = some moved ∧ inv (outs ++ [moved.2]) moved.1) :
    ∀ {inputs : List α} {outs : List β} {state : σ}, inv outs state →
      StepsMeet step cond state inputs →
      ∃ final, runSteps step state inputs = some final ∧ inv (outs ++ final.2) final.1 := by
  intro inputs
  induction inputs with
  | nil =>
      intro outs state hinv _
      exact ⟨(state, []), rfl, by rwa [List.append_nil]⟩
  | cons input rest ih =>
      intro outs state hinv hmeet
      obtain ⟨moved, hstep, hinv'⟩ := keeps outs state input hinv hmeet.1
      obtain ⟨final, hrun, hfinal⟩ := ih hinv' (hmeet.2 moved hstep)
      refine ⟨(final.1, moved.2 :: final.2), ?_, ?_⟩
      · rw [runSteps_cons, hstep, Option.bind_some, hrun, Option.map_some]
      · rwa [List.append_assoc] at hfinal

/-- **The refinement rule.**  If two machines fail on the same inputs and otherwise give the same
outputs and stay related, then so do their runs. -/
theorem runSteps_refines {step' : τ → α → Option (τ × β)} {related : σ → τ → Prop}
    (matched : ∀ state ref input, related state ref →
      step state input = none ∧ step' ref input = none ∨
        ∃ moved moved' out, step state input = some (moved, out) ∧
          step' ref input = some (moved', out) ∧ related moved moved') {ref : τ}
    (h : related state ref) (inputs : List α) :
    runSteps step state inputs = none ∧ runSteps step' ref inputs = none ∨
      ∃ final final' outs, runSteps step state inputs = some (final, outs) ∧
        runSteps step' ref inputs = some (final', outs) ∧ related final final' := by
  induction inputs generalizing state ref with
  | nil => exact Or.inr ⟨state, ref, [], rfl, rfl, h⟩
  | cons input rest ih =>
      rcases matched state ref input h with ⟨hnone, hnone'⟩ | ⟨moved, moved', out, hstep, hstep', h'⟩
      · refine Or.inl ⟨?_, ?_⟩
        · rw [runSteps_cons, hnone, Option.bind_none]
        · rw [runSteps_cons, hnone', Option.bind_none]
      · rcases ih h' with ⟨hnone, hnone'⟩ | ⟨final, final', outs, hrun, hrun', hrelated⟩
        · refine Or.inl ⟨?_, ?_⟩
          · rw [runSteps_cons, hstep, Option.bind_some, hnone, Option.map_none]
          · rw [runSteps_cons, hstep', Option.bind_some, hnone', Option.map_none]
        · refine Or.inr ⟨final, final', out :: outs, ?_, ?_, hrelated⟩
          · rw [runSteps_cons, hstep, Option.bind_some, hrun, Option.map_some]
          · rw [runSteps_cons, hstep', Option.bind_some, hrun', Option.map_some]

/-- **The following rule.**  If a step that meets `cond` does what the reference does wherever that
goes on, and stays related to it, then so does a run whose steps all meet `cond`. -/
theorem runSteps_follows {step' : τ → α → Option (τ × β)} {related : σ → τ → Prop}
    (followed : ∀ state ref input moved, related state ref → cond state input →
      step' ref input = some moved →
        ∃ next, step state input = some (next, moved.2) ∧ related next moved.1) {ref : τ}
    (h : related state ref) {inputs : List α} (hmeet : StepsMeet step cond state inputs)
    {final : τ × List β} (hrun : runSteps step' ref inputs = some final) :
    ∃ last, runSteps step state inputs = some (last, final.2) ∧ related last final.1 := by
  induction inputs generalizing state ref final with
  | nil =>
      cases hrun
      exact ⟨state, rfl, h⟩
  | cons input rest ih =>
      obtain ⟨moved, tail, hstep, hrest, rfl⟩ := runSteps_cons_eq_some hrun
      obtain ⟨next, hnext, h'⟩ := followed state ref input moved h hmeet.1 hstep
      obtain ⟨last, hlast, hrelated⟩ := ih h' (hmeet.2 _ hnext) hrest
      refine ⟨last, ?_, hrelated⟩
      rw [runSteps_cons, hnext, Option.bind_some, hlast]
      rfl

end PartialRun
