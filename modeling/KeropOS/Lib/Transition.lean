import Mathlib.Data.List.Induction

/-!
# Runs of a labelled step relation

* `Run step s es t`: the events `es`, in order, lead from `s` to `t`.
* **`Run.invariant`**: what every step preserves holds at the end of every run.
* **`Run.simulate`**: a simulation between two step relations lifts to runs.
* **`Run.exists_of_progress`**: actions that are possible in every good state make a run.
* `recorded step f`: steps that keep a record of the run; **`Run.invariant_recorded`**;
* `execute act f`: steps as a function; **`execute_run`**: what it does is a run.
-/

namespace Transition

variable {σ τ ε : Type*}

/-- The runs of a labelled step relation. -/
inductive Run (step : σ → ε → σ → Prop) (s : σ) : List ε → σ → Prop
  | nil : Run step s [] s
  | snoc {t u : σ} {es : List ε} {e : ε} :
      Run step s es t → step t e u → Run step s (es ++ [e]) u

variable {step : σ → ε → σ → Prop} {s t u : σ} {es fs : List ε} {e : ε}

namespace Run

theorem single (h : step s e t) : Run step s [e] t := by
  simpa using Run.nil.snoc h

theorem append (h : Run step s es t) (h' : Run step t fs u) : Run step s (es ++ fs) u := by
  induction h' with
  | nil => simpa using h
  | snoc _ hs ih => rw [← List.append_assoc]; exact ih.snoc hs

theorem cons (h : step s e t) (h' : Run step t es u) : Run step s (e :: es) u := by
  simpa using (single h).append h'

theorem nil_iff : Run step s [] t ↔ s = t := by
  constructor
  · intro h
    generalize hes : ([] : List ε) = es at h
    cases h with
    | nil => rfl
    | snoc _ _ => simp at hes
  · rintro rfl; exact .nil

theorem snoc_iff : Run step s (es ++ [e]) u ↔ ∃ t, Run step s es t ∧ step t e u := by
  constructor
  · intro h
    generalize hfs : es ++ [e] = fs at h
    cases h with
    | nil => simp at hfs
    | snoc h hs =>
      obtain ⟨rfl, he⟩ := List.append_inj' hfs rfl
      obtain rfl : e = _ := by simpa using he
      exact ⟨_, h, hs⟩
  · rintro ⟨t, h, hs⟩; exact h.snoc hs

/-- The invariant rule for a run of known events. -/
theorem invariant_mem (I : σ → Prop) (h : Run step s es t) (hI : ∀ s t, ∀ e ∈ es, I s → step s e t → I t)
    (hs : I s) : I t := by
  induction h with
  | nil => exact hs
  | snoc _ hstep ih =>
    exact hI _ _ _ (by simp) (ih fun s t e he => hI s t e (List.mem_append_left _ he)) hstep

/-- **The invariant rule.** -/
theorem invariant (I : σ → Prop) (hI : ∀ s e t, I s → step s e t → I t) (h : Run step s es t)
    (hs : I s) : I t :=
  h.invariant_mem I (fun s t e _ => hI s e t) hs

/-- **The simulation rule.** A step relation that follows another one event by event, through
the relation `R`, follows its runs. -/
theorem simulate {step' : τ → ε → τ → Prop} (R : σ → τ → Prop)
    (hR : ∀ s e t, step s e t → ∀ s', R s s' → ∃ t', step' s' e t' ∧ R t t')
    (h : Run step s es t) {s' : τ} (hs : R s s') : ∃ t', Run step' s' es t' ∧ R t t' := by
  induction h with
  | nil => exact ⟨s', .nil, hs⟩
  | snoc _ hstep ih =>
    obtain ⟨t', hrun, ht⟩ := ih
    obtain ⟨u', hstep', hu⟩ := hR _ _ _ hstep _ ht
    exact ⟨u', hrun.snoc hstep', hu⟩

/-- **The progress rule.** Where every action is possible in every state that satisfies `I`, and
leads to such a state, every list of actions is that of a run. -/
theorem exists_of_progress {α : Type*} (I : σ → Prop) (action : ε → α)
    (hI : ∀ s a, I s → ∃ e t, action e = a ∧ step s e t ∧ I t) (hs : I s) (as : List α) :
    ∃ es t, es.map action = as ∧ Run step s es t ∧ I t := by
  induction as using List.reverseRecOn with
  | nil => exact ⟨[], s, rfl, .nil, hs⟩
  | append_singleton as a ih =>
    obtain ⟨es, t, hes, hrun, ht⟩ := ih
    obtain ⟨e, u, he, hstep, hu⟩ := hI t a ht
    exact ⟨es ++ [e], u, by rw [List.map_append, hes, List.map_singleton, he], hrun.snoc hstep, hu⟩

end Run

/-! ## Records -/

section Record

variable {H α κ : Type*} {step : σ → ε → σ → Prop} {f : σ → ε → σ → H → H}
variable {x y z : σ × H} {es : List ε}

/-- The steps of a system, with a record that each step brings up to date. -/
def recorded (step : σ → ε → σ → Prop) (f : σ → ε → σ → H → H) (x : σ × H) (e : ε) (y : σ × H) : Prop :=
  step x.1 e y.1 ∧ y.2 = f x.1 e y.1 x.2

theorem Run.unrecorded (h : Run (recorded step f) x es y) : Run step x.1 es y.1 := by
  induction h with
  | nil => exact .nil
  | snoc _ hstep ih => exact ih.snoc hstep.1

/-- **The invariant rule with a record**: the record's invariant may use that of the states. -/
theorem Run.invariant_recorded (I : σ → Prop) (R : σ → H → Prop) (hI : ∀ s e t, I s → step s e t → I t)
    (hR : ∀ s e t a, I s → R s a → step s e t → R t (f s e t a)) (h : Run (recorded step f) x es y)
    (hx : I x.1) (ha : R x.1 x.2) : I y.1 ∧ R y.1 y.2 := by
  refine h.invariant (fun x => I x.1 ∧ R x.1 x.2) (fun x e y hx hstep => ⟨hI _ _ _ hx.1 hstep.1, ?_⟩) ⟨hx, ha⟩
  rw [hstep.2]
  exact hR _ _ _ _ hx.1 hx.2 hstep.1

/-- Steps one after the other, with their record. -/
def execute (act : σ → α → Except κ (ε × σ)) (f : σ → ε → σ → H → H) (x : σ × H) :
    List α → Except κ (List ε × σ × H)
  | [] => .ok ([], x)
  | a :: as =>
    match act x.1 a with
    | .error k => .error k
    | .ok (e, t) =>
      match execute act f (t, f x.1 e t x.2) as with
      | .error k => .error k
      | .ok (es, y) => .ok (e :: es, y)

/-- **Executed steps are a run.** -/
theorem execute_run {act : σ → α → Except κ (ε × σ)} {as : List α}
    (h : execute act f x as = .ok (es, y)) (hact : ∀ {s a e t}, act s a = .ok (e, t) → step s e t) :
    Run (recorded step f) x es y := by
  induction as generalizing x es y with
  | nil =>
    obtain ⟨rfl, rfl⟩ := Prod.mk.inj (Except.ok.inj h)
    exact .nil
  | cons a as ih =>
    rw [execute] at h
    split at h
    · exact absurd h (by simp)
    · rename_i e t ha
      split at h
      · exact absurd h (by simp)
      · rename_i es' y' hrest
        obtain ⟨rfl, rfl⟩ := Prod.mk.inj (Except.ok.inj h)
        exact .cons ⟨hact ha, rfl⟩ (ih hrest)

/-- A result that was mapped comes from a result. -/
theorem exists_of_map {β : Type*} {u : Except κ α} {g : α → β} {b : β} (h : u.map g = .ok b) :
    ∃ a, u = .ok a ∧ g a = b := by
  cases u with
  | error k => exact absurd h (by simp [Except.map])
  | ok a => exact ⟨a, rfl, Except.ok.inj h⟩

/-- A run, found by executing it. -/
theorem exists_run (act : σ → α → Except κ (ε × σ)) (hact : ∀ {s a e t}, act s a = .ok (e, t) → step s e t)
    (f : σ → ε → σ → H → H) (x : σ × H) (as : List α) (q : List ε → σ → H → Bool)
    (h : (match execute act f x as with
      | .ok (es, t, b) => q es t b
      | .error _ => false) = true) :
    ∃ es t b, Run (recorded step f) x es (t, b) ∧ q es t b = true := by
  split at h
  · rename_i es t b he
    exact ⟨es, t, b, execute_run he hact, h⟩
  · exact absurd h (by simp)

end Record

end Transition
