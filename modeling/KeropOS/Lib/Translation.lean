import Mathlib.Logic.Function.Basic
import Mathlib.Data.List.Induction

/-!
# Address spaces

A translation takes addresses to the cells of one memory, and has nothing for those that are not
mapped. Stores go through it one after the other, and fail at the first that is not mapped.

* `view`: a memory seen through a translation; `poke`, `pokes`: stores;
* `put`, `putAll`: the same stores, in a memory that is nobody else's;
* **`view_pokes`**: through a translation that maps no cell twice, stores look like stores in a
  memory of its own;
* **`view_pokes_of_apart`**: through one that shares no cell with it, they are not seen at all.
-/

namespace Translation

variable {V C B : Type*}

/-- The memory as it is seen through a translation. -/
def view (σ : V → Option C) (mem : C → B) (v : V) : Option B := (σ v).map mem

/-- No cell is mapped twice. -/
def OneToOne (σ : V → Option C) : Prop := ∀ ⦃v w c⦄, σ v = some c → σ w = some c → v = w

/-- No cell is mapped by both. -/
def Apart (σ τ : V → Option C) : Prop := ∀ ⦃v w c⦄, σ v = some c → τ w ≠ some c

theorem Apart.symm {σ τ : V → Option C} (h : Apart σ τ) : Apart τ σ := fun _ _ _ hv hw => h hw hv

/-! ## A memory of one's own -/

section

variable [DecidableEq V]

def put (p : V → Option B) (w : V × B) : V → Option B := Function.update p w.1 (some w.2)

def putAll (p : V → Option B) (ws : List (V × B)) : V → Option B := ws.foldl put p

theorem putAll_concat (p : V → Option B) (ws : List (V × B)) (w : V × B) :
    putAll p (ws ++ [w]) = put (putAll p ws) w := List.foldl_append

theorem putAll_of_not_mem {p : V → Option B} {ws : List (V × B)} {v : V} (h : ∀ w ∈ ws, w.1 ≠ v) :
    putAll p ws v = p v := by
  induction ws using List.reverseRecOn with
  | nil => rfl
  | append_singleton ws w ih =>
    have hne : w.1 ≠ v := h w (List.mem_append_right ws (List.mem_singleton_self w))
    rw [putAll_concat, put, Function.update_of_ne hne.symm]
    exact ih fun w hw => h w (List.mem_append_left _ hw)

/-- What was stored, when all stores to the address agree. -/
theorem putAll_of_mem {p : V → Option B} {ws : List (V × B)} {v : V} {b : B} (hmem : (v, b) ∈ ws)
    (hsame : ∀ b', (v, b') ∈ ws → b' = b) : putAll p ws v = some b := by
  induction ws using List.reverseRecOn with
  | nil => exact absurd hmem List.not_mem_nil
  | append_singleton ws w ih =>
    rw [putAll_concat, put]
    by_cases hw : w.1 = v
    · subst hw
      rw [Function.update_self, hsame w.2 (List.mem_append_right ws (List.mem_singleton_self w))]
    · rw [Function.update_of_ne (Ne.symm hw)]
      rcases List.mem_append.mp hmem with h | h
      · exact ih h fun b' hb' => hsame b' (List.mem_append_left _ hb')
      · exact absurd (congrArg Prod.fst (List.mem_singleton.mp h)).symm hw

end

/-! ## Stores in the shared memory -/

section

variable [DecidableEq C] {σ τ : V → Option C} {mem mem' : C → B}

def poke (σ : V → Option C) (mem : C → B) (w : V × B) : Option (C → B) :=
  (σ w.1).map fun c => Function.update mem c w.2

def pokes (σ : V → Option C) (mem : C → B) (ws : List (V × B)) : Option (C → B) := ws.foldlM (poke σ) mem

theorem poke_eq_some {w : V × B} (h : poke σ mem w = some mem') :
    ∃ c, σ w.1 = some c ∧ mem' = Function.update mem c w.2 := by
  obtain ⟨c, hc, rfl⟩ := Option.map_eq_some_iff.mp h
  exact ⟨c, hc, rfl⟩

theorem pokes_cons {w : V × B} {ws : List (V × B)} (h : pokes σ mem (w :: ws) = some mem') :
    ∃ m, poke σ mem w = some m ∧ pokes σ m ws = some mem' := by
  rw [pokes, List.foldlM_cons] at h
  exact Option.bind_eq_some_iff.mp h

theorem view_poke [DecidableEq V] (hσ : OneToOne σ) {w : V × B} (h : poke σ mem w = some mem') :
    view σ mem' = put (view σ mem) w := by
  obtain ⟨c, hc, rfl⟩ := poke_eq_some h
  funext v
  unfold view put
  by_cases hv : v = w.1
  · subst hv
    rw [hc, Function.update_self, Option.map_some, Function.update_self]
  · rw [Function.update_of_ne hv]
    cases hcell : σ v with
    | none => rfl
    | some c' =>
      have hne : c' ≠ c := by
        intro he
        rw [he] at hcell
        exact hv (hσ hcell hc)
      rw [Option.map_some, Option.map_some, Function.update_of_ne hne]

/-- **Stores as in a memory of one's own.** -/
theorem view_pokes [DecidableEq V] (hσ : OneToOne σ) {ws : List (V × B)} (h : pokes σ mem ws = some mem') :
    view σ mem' = putAll (view σ mem) ws := by
  induction ws generalizing mem with
  | nil =>
    obtain rfl : mem = mem' := Option.some.inj h
    rfl
  | cons w ws ih =>
    obtain ⟨m, hw, hws⟩ := pokes_cons h
    rw [ih hws, view_poke hσ hw]
    rfl

theorem view_poke_of_apart (hστ : Apart σ τ) {w : V × B} (h : poke σ mem w = some mem') :
    view τ mem' = view τ mem := by
  obtain ⟨c, hc, rfl⟩ := poke_eq_some h
  funext v
  unfold view
  cases hcell : τ v with
  | none => rfl
  | some c' =>
    have hne : c' ≠ c := by
      intro he
      rw [he] at hcell
      exact hστ hc hcell
    rw [Option.map_some, Option.map_some, Function.update_of_ne hne]

/-- **Stores of others are not seen.** -/
theorem view_pokes_of_apart (hστ : Apart σ τ) {ws : List (V × B)} (h : pokes σ mem ws = some mem') :
    view τ mem' = view τ mem := by
  induction ws generalizing mem with
  | nil =>
    obtain rfl : mem = mem' := Option.some.inj h
    rfl
  | cons w ws ih =>
    obtain ⟨m, hw, hws⟩ := pokes_cons h
    rw [ih hws, view_poke_of_apart hστ hw]

/-- Stores to mapped addresses succeed. -/
theorem pokes_isSome {ws : List (V × B)} (h : ∀ w ∈ ws, (σ w.1).isSome = true) :
    ∃ mem', pokes σ mem ws = some mem' := by
  induction ws generalizing mem with
  | nil => exact ⟨mem, rfl⟩
  | cons w ws ih =>
    obtain ⟨c, hc⟩ := Option.isSome_iff_exists.mp (h w List.mem_cons_self)
    have hpoke : poke σ mem w = some (Function.update mem c w.2) := by rw [poke, hc, Option.map_some]
    obtain ⟨mem', hmem'⟩ := ih fun w hw => h w (List.mem_cons_of_mem _ hw)
    refine ⟨mem', ?_⟩
    rw [pokes, List.foldlM_cons, hpoke]
    exact hmem'

end

end Translation
