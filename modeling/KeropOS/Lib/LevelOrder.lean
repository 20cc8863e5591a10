import Mathlib.Data.List.Nodup
import Mathlib.Data.List.Flatten
import Mathlib.Tactic.Common

/-!
# Level order

A walk through a forest with a queue of at most `N` nodes: the first node is visited, its children go behind
the last.

* `level`: the nodes of one depth; `Visits`: what a queue visits when it never has to hold more than `N`;
* `Roomy`: the nodes that wait in the midst of a level; **`visits_levels`**: the walk goes level by level;
* `mem_levels`, **`nodup_levels`**: every node is in one of the levels, once.
-/

namespace LevelOrder

variable {α : Type*} (children : α → List α) (roots : List α) (N : ℕ)

/-- The nodes at depth `k`. -/
def level : ℕ → List α
  | 0 => roots
  | k + 1 => (level k).flatMap children

/-- A queue visits these nodes, in this order; behind each visit no more than `N` wait. -/
inductive Visits : (queue order : List α) → Prop
  | nil : Visits [] []
  | cons {d : α} {queue order : List α} : (queue ++ children d).length ≤ N →
    Visits (queue ++ children d) order →
      Visits (d :: queue) (d :: order)

/-- While `d` is visited, what is behind it on its level waits, and the children of what is not. -/
def Roomy : Prop := ∀ k A d B, level children roots k = A ++ d :: B →
  (B ++ (A ++ [d]).flatMap children).length ≤ N

variable {children roots N} {k n K : ℕ} {x y : α} {A B order : List α}

theorem mem_level_succ : x ∈ level children roots (k + 1) ↔ ∃ y ∈ level children roots k, x ∈ children y := by
  rw [level, List.mem_flatMap]

/-- Below an empty level there is nothing. -/
theorem level_of_end (hend : level children roots K = []) (hk : K ≤ k) : level children roots k = [] := by
  obtain ⟨j, rfl⟩ := Nat.exists_eq_add_of_le hk
  clear hk
  induction j with
  | zero => exact hend
  | succ j ih => rw [← Nat.add_assoc, level, ih, List.flatMap_nil]

/-- The rest of a level is visited before the next one. -/
theorem visits_rest (hroomy : Roomy children roots N)
    (h : Visits children N (level children roots (k + 1)) order)
    (hlevel : level children roots k = A ++ B) :
    Visits children N (B ++ A.flatMap children) (B ++ order) := by
  induction B generalizing A with
  | nil =>
    rw [List.append_nil] at hlevel
    rwa [level, hlevel] at h
  | cons d B ih =>
    have hqueue : B ++ A.flatMap children ++ children d = B ++ (A ++ [d]).flatMap children := by
      rw [List.flatMap_append, List.flatMap_singleton, List.append_assoc]
    have hroom := hroomy k A d B hlevel
    rw [← hqueue] at hroom
    rw [List.cons_append, List.cons_append]
    refine .cons hroom ?_
    rw [hqueue]
    exact ih (by rw [hlevel, List.append_assoc, List.singleton_append])

/-- **The walk goes level by level**, down to an empty level. -/
theorem visits_levels (hroomy : Roomy children roots N) (hend : level children roots (k + n) = []) :
    Visits children N (level children roots k) ((List.range' k n).flatMap (level children roots)) := by
  induction n generalizing k with
  | zero =>
    rw [show level children roots k = [] from hend]
    exact .nil
  | succ n ih =>
    have hnext := ih (k := k + 1) (by rwa [Nat.add_right_comm])
    rw [List.range'_succ, List.flatMap_cons]
    simpa using visits_rest (A := []) hroomy hnext rfl

theorem mem_levels (hend : level children roots K = []) :
    x ∈ (List.range' 0 K).flatMap (level children roots) ↔ ∃ k, x ∈ level children roots k := by
  rw [List.mem_flatMap]
  constructor
  · rintro ⟨k, -, hk⟩
    exact ⟨k, hk⟩
  · rintro ⟨k, hk⟩
    refine ⟨k, List.mem_range'_1.mpr ⟨Nat.zero_le k, ?_⟩, hk⟩
    by_contra hle
    rw [level_of_end hend (by omega)] at hk
    exact List.not_mem_nil hk

section Nodup

variable (hroots : roots.Nodup) (hnodup : ∀ k, ∀ y ∈ level children roots k, (children y).Nodup)
  (hparent : ∀ x y z, x ∈ children y → x ∈ children z → y = z)

include hroots hnodup hparent

/-- A level has no node twice, when a node has one parent. -/
theorem nodup_level (k : ℕ) : (level children roots k).Nodup := by
  induction k with
  | zero => exact hroots
  | succ k ih =>
    rw [level, List.nodup_flatMap]
    refine ⟨hnodup k, ih.imp fun {y z} hne => ?_⟩
    intro x hx hx'
    exact hne (hparent x y z hx hx')

/-- **No node is twice in the levels**, when they are told apart by a depth. -/
theorem nodup_levels (depth : α → ℕ) (hdepth : ∀ k, ∀ x ∈ level children roots k, depth x = k) (K : ℕ) :
    ((List.range' 0 K).flatMap (level children roots)).Nodup := by
  rw [List.nodup_flatMap]
  refine ⟨fun k _ => nodup_level hroots hnodup hparent k,
    List.Pairwise.imp (fun {j k} hne => ?_) List.nodup_range'⟩
  intro x hx hx'
  exact hne ((hdepth j x hx).symm.trans (hdepth k x hx'))

end Nodup

end LevelOrder
