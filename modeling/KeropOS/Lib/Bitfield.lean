import Mathlib.Algebra.Order.Ring.Nat
import Mathlib.Data.Nat.Basic
import Mathlib.Tactic.Ring

/-!
# Bit-fields

A record of bit-fields as the number that its bits make, the first field lowest, and the number
read by the positions of its bits.

* `pack`: the number of a list of fields; `field`: some bits of a number;
* **`field_pack`**: a field is found at the widths of those before it.
-/

namespace Bitfield

/-- A field: its value, of its width. -/
abbrev Field := Σ w : ℕ, Fin (2 ^ w)

/-- The width of some fields. -/
def width (fs : List Field) : ℕ := (fs.map Sigma.fst).sum

/-- The number that the fields make. -/
def pack : List Field → ℕ
  | [] => 0
  | ⟨w, v⟩ :: fs => v.val + 2 ^ w * pack fs

/-- The `w` bits of `n` from bit `offset` on. -/
def field (n offset w : ℕ) : ℕ := n / 2 ^ offset % 2 ^ w

theorem pack_append (fs gs : List Field) : pack (fs ++ gs) = pack fs + 2 ^ width fs * pack gs := by
  induction fs with
  | nil => simp [pack, width]
  | cons f fs ih =>
    have hwidth : width (f :: fs) = f.1 + width fs := by simp [width]
    rw [List.cons_append, pack, ih, hwidth, pack, Nat.pow_add]
    ring

theorem pack_lt (fs : List Field) : pack fs < 2 ^ width fs := by
  induction fs with
  | nil => exact Nat.one_pos
  | cons f fs ih =>
    obtain ⟨w, v⟩ := f
    have hwidth : width (⟨w, v⟩ :: fs) = w + width fs := by simp [width]
    have hv := v.isLt
    rw [hwidth, pack, Nat.pow_add]
    calc v.val + 2 ^ w * pack fs < 2 ^ w + 2 ^ w * pack fs := by omega
      _ = 2 ^ w * (pack fs + 1) := by ring
      _ ≤ 2 ^ w * 2 ^ width fs := Nat.mul_le_mul_left _ ih

/-- **A field is found** at the widths of the fields before it. -/
theorem field_pack (fs gs : List Field) (w : ℕ) (v : Fin (2 ^ w)) :
    field (pack (fs ++ ⟨w, v⟩ :: gs)) (width fs) w = v := by
  unfold field
  rw [pack_append, pack, Nat.add_mul_div_left _ _ (Nat.two_pow_pos _), Nat.div_eq_of_lt (pack_lt fs),
    Nat.zero_add, Nat.add_mul_mod_self_left, Nat.mod_eq_of_lt v.isLt]

end Bitfield
