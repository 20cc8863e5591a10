import Mathlib.Logic.Function.Basic
import Mathlib.Data.Fin.Basic

/-!
# Trails

A trail of length `n` in a labelled graph, kept in two arrays: node `k` is reached from node `k - 1` by an
edge with label `k`. What lies at index `n` and after it is free.

* `Trail.mono`, `Trail.relabel`, `Trail.push`: going back, writing behind the end, going on;
* **`Trail.push_iff`**: going on is right exactly when there is an edge;
* **`Trail.induct`**: what edges preserve holds along a trail.
-/

namespace Trails

variable {α β : Type*} {N : ℕ}

/-- Every node below `n` but the first is reached from the one before it. -/
def Trail (edge : α → β → α → Prop) (node : Fin N → α) (label : Fin N → β) (n : ℕ) : Prop :=
  ∀ j k : Fin N, j.val + 1 = k.val → k.val < n → edge (node j) (label k) (node k)

namespace Trail

variable {edge : α → β → α → Prop} {node : Fin N → α} {label : Fin N → β} {m n : ℕ} {i : Fin N}
  {a : α} {b : β}

theorem one (node : Fin N → α) (label : Fin N → β) : Trail edge node label 1 :=
  fun j k hjk hk => by omega

theorem mono (h : Trail edge node label n) (hm : m ≤ n) : Trail edge node label m :=
  fun j k hjk hk => h j k hjk (by omega)

/-- Labels behind the end are free. -/
theorem relabel (h : Trail edge node label n) (hi : n ≤ i.val) :
    Trail edge node (Function.update label i b) n := by
  intro j k hjk hk
  have hne : k ≠ i := fun e => by
    rw [e] at hk
    omega
  rw [Function.update_of_ne hne]
  exact h j k hjk hk

/-- A trail goes on by an edge from its last node. -/
theorem push_iff (h : Trail edge node label n) (hi : i.val = n) :
    Trail edge (Function.update node i a) label (n + 1) ↔
      ∀ j : Fin N, j.val + 1 = n → edge (node j) (label i) a := by
  have hold : ∀ j : Fin N, j.val < n → Function.update node i a j = node j := fun j hj =>
    Function.update_of_ne (fun e => by rw [e] at hj; omega) _ _
  constructor
  · intro hpush j hj
    have := hpush j i (by omega) (by omega)
    rwa [hold j (by omega), Function.update_self] at this
  · intro hedge j k hjk hk
    rw [hold j (by omega)]
    rcases Nat.lt_succ_iff_lt_or_eq.mp hk with hlt | heq
    · rw [hold k hlt]
      exact h j k hjk hlt
    · obtain rfl : k = i := Fin.ext (by omega)
      rw [Function.update_self]
      exact hedge j (by omega)

/-- **What edges preserve holds along a trail.** -/
theorem induct (P : α → Prop) (h : Trail edge node label n) (hzero : ∀ k : Fin N, k.val = 0 → P (node k))
    (hedge : ∀ a b c, edge a b c → P a → P c) : ∀ k : Fin N, k.val < n → P (node k) := by
  rintro ⟨k, hN⟩ hk
  induction k with
  | zero => exact hzero _ rfl
  | succ k ih =>
    refine hedge _ _ _ (h ⟨k, by omega⟩ ⟨k + 1, hN⟩ rfl hk) (ih (by omega) ?_)
    exact Nat.lt_of_succ_lt hk

end Trail

end Trails
