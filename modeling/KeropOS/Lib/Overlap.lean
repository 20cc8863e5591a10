import Mathlib.Logic.Function.Basic
import Mathlib.Order.Basic

/-!
# Copies that overlap

A block of cells copied one by one within one array, upwards or downwards. Where source and target
overlap, the direction decides whether a cell is read before it is overwritten.

* `block`: the copy that is meant; `copyUp`, `copyDown`: the two loops;
* **`copyUp_eq`**, **`copyDown_eq`**: when a loop makes the copy that is meant;
* **`copyUp_periodic`**: what copying upwards makes of a target above its source.
-/

namespace Overlap

variable {α : Type*} (m : ℕ → α) (dest src : ℕ)

/-- The array with its `n` cells from `dest` on as those from `src` on were. -/
def block (n : ℕ) : ℕ → α := fun a =>
  if dest ≤ a ∧ a < dest + n then m (src + (a - dest)) else m a

/-- The copy of `n` cells, the lowest first. -/
def copyUp : ℕ → (ℕ → α)
  | 0 => m
  | n + 1 => Function.update (copyUp n) (dest + n) (copyUp n (src + n))

/-- The copy of `n` cells, the highest first. -/
def copyDown (dest src : ℕ) : ℕ → (ℕ → α) → (ℕ → α)
  | 0, m => m
  | n + 1, m => copyDown dest src n (Function.update m (dest + n) (m (src + n)))

variable {m dest src}

theorem copyUp_succ (n : ℕ) : copyUp m dest src (n + 1) =
    Function.update (copyUp m dest src n) (dest + n) (copyUp m dest src n (src + n)) := rfl

/-- A cell below the target is as before. -/
theorem copyUp_of_lt {n a : ℕ} (h : a < dest) : copyUp m dest src n a = m a := by
  induction n with
  | zero => rfl
  | succ n ih => rw [copyUp_succ, Function.update_of_ne (by omega), ih]

/-- A cell above what has been copied is as before. -/
theorem copyUp_of_le {n a : ℕ} (h : dest + n ≤ a) : copyUp m dest src n a = m a := by
  induction n with
  | zero => rfl
  | succ n ih => rw [copyUp_succ, Function.update_of_ne (by omega), ih (by omega)]

/-- A cell of the target keeps what was copied to it. -/
theorem copyUp_of_copied {n k : ℕ} (h : k < n) :
    copyUp m dest src n (dest + k) = copyUp m dest src k (src + k) := by
  induction n with
  | zero => exact absurd h (Nat.not_lt_zero k)
  | succ n ih =>
    by_cases hk : k = n
    · subst hk
      rw [copyUp_succ, Function.update_self]
    · rw [copyUp_succ, Function.update_of_ne (by omega)]
      exact ih (by omega)

/-- **Upwards onto a target that does not start inside the source.** -/
theorem copyUp_eq {n : ℕ} (h : dest ≤ src ∨ src + n ≤ dest) : copyUp m dest src n = block m dest src n := by
  funext a
  unfold block
  by_cases ha : dest ≤ a ∧ a < dest + n
  · obtain ⟨k, rfl⟩ : ∃ k, a = dest + k := ⟨a - dest, by omega⟩
    rw [if_pos ha, copyUp_of_copied (by omega), Nat.add_sub_cancel_left]
    rcases h with h | h
    · exact copyUp_of_le (by omega)
    · exact copyUp_of_lt (by omega)
  · rw [if_neg ha]
    rcases Nat.lt_or_ge a dest with hlt | hge
    · exact copyUp_of_lt hlt
    · exact copyUp_of_le (by omega)

/-- **Upwards onto a target above its source**: the cells between the two repeat. -/
theorem copyUp_periodic {n k : ℕ} (h : src < dest) (hk : k < n) :
    copyUp m dest src n (dest + k) = m (src + k % (dest - src)) := by
  induction k using Nat.strongRecOn with
  | ind k ih =>
    rw [copyUp_of_copied hk]
    rcases Nat.lt_or_ge k (dest - src) with hlt | hge
    · rw [Nat.mod_eq_of_lt hlt]
      exact copyUp_of_lt (by omega)
    · -- the cell read is one copied before
      have hread : src + k = dest + (k - (dest - src)) := by omega
      have hprev := ih (k - (dest - src)) (by omega) (by omega)
      rw [copyUp_of_copied (by omega)] at hprev
      rw [hread, copyUp_of_copied (by omega), hprev, Nat.mod_eq_sub_mod hge]

/-- **Downwards onto a target that does not end inside the source.** -/
theorem copyDown_eq {n : ℕ} (h : src ≤ dest ∨ dest + n ≤ src) (m : ℕ → α) :
    copyDown dest src n m = block m dest src n := by
  induction n generalizing m with
  | zero =>
    funext a
    exact (if_neg (by omega)).symm
  | succ n ih =>
    rw [copyDown, ih (by omega)]
    funext a
    unfold block
    by_cases hlt : dest ≤ a ∧ a < dest + n
    · have hin : dest ≤ a ∧ a < dest + (n + 1) := by omega
      rw [if_pos hlt, if_pos hin, Function.update_of_ne (by omega)]
    · rw [if_neg hlt]
      by_cases hlast : a = dest + n
      · have hin : dest ≤ a ∧ a < dest + (n + 1) := by omega
        rw [if_pos hin, hlast, Function.update_self, Nat.add_sub_cancel_left]
      · have hout : ¬ (dest ≤ a ∧ a < dest + (n + 1)) := by omega
        rw [if_neg hout, Function.update_of_ne hlast]

end Overlap
