import Mathlib.Data.UInt
import Mathlib.Tactic.Common
import KeropOS.Lib.Overlap

/-!
# The memory functions

`memcpy` and `memmove` of `string.c`, on a memory of bytes. A pointer is an address, and
no block reaches past the end of the address space.

* **`memmove_moves`**: `memmove` copies whatever the overlap;
* `memcpy_eq_block`, **`memcpy_copies_iff`**: the overlaps under which `memcpy` copies.
-/

namespace KeropOS

open Overlap

/-- The bytes at each address. -/
abbrev Memory := ℕ → UInt8

/-- `for (i = 0; i < n; i++) dstbuf[i] = srcbuf[i];` -/
def memcpy (m : Memory) (dest src n : ℕ) : Memory := copyUp m dest src n

/-- The second loop is `for (i = n; i != 0; i--) dstbuf[i - 1] = srcbuf[i - 1];`. -/
def memmove (m : Memory) (dest src n : ℕ) : Memory :=
  if dest < src then copyUp m dest src n else copyDown dest src n m

variable {m : Memory} {dest src n : ℕ}

/-- **`memmove` copies**, whatever the overlap. -/
theorem memmove_moves (m : Memory) (dest src n : ℕ) : memmove m dest src n = block m dest src n := by
  unfold memmove
  by_cases h : dest < src
  · rw [if_pos h]
    exact copyUp_eq (.inl h.le)
  · rw [if_neg h]
    exact copyDown_eq (.inl (not_lt.mp h)) m

theorem memcpy_eq_block (h : dest ≤ src ∨ src + n ≤ dest) : memcpy m dest src n = block m dest src n :=
  copyUp_eq h

/-- **`memcpy` copies if and only if** the target is not above the source, or the source repeats
with the distance between the two. -/
theorem memcpy_copies_iff (m : Memory) (dest src n : ℕ) :
    memcpy m dest src n = block m dest src n ↔
      (src < dest → ∀ k < n, m (src + k % (dest - src)) = m (src + k)) := by
  have hblock : ∀ k < n, block m dest src n (dest + k) = m (src + k) := by
    intro k hk
    have hin : dest ≤ dest + k ∧ dest + k < dest + n := by omega
    rw [block, if_pos hin, Nat.add_sub_cancel_left]
  constructor
  · intro h hlt k hk
    rw [← hblock k hk, ← h]
    exact (copyUp_periodic hlt hk).symm
  · intro h
    rcases Nat.lt_or_ge src dest with hlt | hge
    · funext a
      by_cases ha : dest ≤ a ∧ a < dest + n
      · obtain ⟨k, rfl⟩ : ∃ k, a = dest + k := ⟨a - dest, by omega⟩
        rw [hblock k (by omega), ← h hlt k (by omega)]
        exact copyUp_periodic hlt (by omega)
      · rw [block, if_neg ha]
        rcases Nat.lt_or_ge a dest with ha' | ha'
        · exact copyUp_of_lt ha'
        · exact copyUp_of_le (by omega)
    · exact memcpy_eq_block (.inl hge)

end KeropOS
