import Mathlib.Data.Fin.Basic
import Mathlib.Algebra.Group.Fin.Basic
import Mathlib.Algebra.Group.Basic
import Mathlib.Order.WellFounded

/-!
# Cyclic order on `Fin (n + 1)`

* `FirstFrom p a i`: going round from `a`, `i` is the first index with property `p`;
* `NextAfter p a i`: the same, strictly after `a`;
* `FirstFrom.unique`, `exists_firstFrom`, `firstFrom_step`: a search by steps finds it;
* **`NextAfter.closer`**: choosing the next index brings every index with the property closer, until
  it is chosen.
-/

namespace RoundRobin

variable {n : ℕ} {p : Fin (n + 1) → Prop} {a i j q : Fin (n + 1)}

/-- Going round from `a`, `i` is the first index with property `p`. -/
def FirstFrom (p : Fin (n + 1) → Prop) (a i : Fin (n + 1)) : Prop :=
  p i ∧ ∀ j, p j → (i - a).val ≤ (j - a).val

/-- `i` is the first index with property `p` strictly after `a`. -/
def NextAfter (p : Fin (n + 1) → Prop) (a i : Fin (n + 1)) : Prop := FirstFrom p (a + 1) i

instance [DecidablePred p] : Decidable (FirstFrom p a i) :=
  inferInstanceAs (Decidable (p i ∧ ∀ j, p j → (i - a).val ≤ (j - a).val))

instance [DecidablePred p] : Decidable (NextAfter p a i) := inferInstanceAs (Decidable (FirstFrom p (a + 1) i))

theorem FirstFrom.unique (h : FirstFrom p a i) (h' : FirstFrom p a j) : i = j :=
  sub_left_injective (Fin.ext (le_antisymm (h.2 j h'.1) (h'.2 i h.1)))

/-- Starting one index later is one step less. -/
theorem val_sub_eq (h : i ≠ a) : (i - a).val = (i - (a + 1)).val + 1 := by
  have hsub : i - a = i - (a + 1) + 1 := by rw [sub_add_eq_sub_sub, sub_add_cancel]
  have hne : i - (a + 1) ≠ Fin.last n := by
    intro hl
    rw [hl, Fin.last_add_one] at hsub
    exact h (sub_eq_zero.mp hsub)
  rw [hsub, Fin.val_add_one, if_neg hne]

theorem firstFrom_self (h : p a) : FirstFrom p a a :=
  ⟨h, fun j _ => by rw [sub_self]; exact Nat.zero_le _⟩

/-- An index without the property can be skipped. -/
theorem firstFrom_step (h : ¬ p a) : FirstFrom p a i ↔ FirstFrom p (a + 1) i := by
  have hne : ∀ {j}, p j → j ≠ a := by
    rintro j hj rfl
    exact h hj
  refine and_congr_right fun hi => forall₂_congr fun j hj => ?_
  rw [val_sub_eq (hne hi), val_sub_eq (hne hj), Nat.add_le_add_iff_right]

theorem exists_firstFrom (a : Fin (n + 1)) (h : ∃ i, p i) : ∃ i, FirstFrom p a i := by
  obtain ⟨i, hi, hmin⟩ := (measure fun i : Fin (n + 1) => (i - a).val).wf.has_min {i | p i} h
  exact ⟨i, hi, fun j hj => not_lt.mp (hmin j hj)⟩

/-- **The next index brings the others closer.** -/
theorem NextAfter.closer (h : NextAfter p a i) (hq : p q) (hne : q ≠ i) :
    (q - (i + 1)).val < (q - (a + 1)).val := by
  have hle := h.2 q hq
  have hlt : (i - (a + 1)).val < (q - (a + 1)).val := lt_of_le_of_ne hle fun he =>
    hne (sub_left_injective (Fin.ext he)).symm
  have hsub : q - i = (q - (a + 1)) - (i - (a + 1)) := (sub_sub_sub_cancel_right q i (a + 1)).symm
  have hval : (q - i).val = (q - (a + 1)).val - (i - (a + 1)).val := by
    rw [hsub, Fin.sub_val_of_le (Fin.le_def.mpr hle)]
  have := val_sub_eq hne
  omega

end RoundRobin
