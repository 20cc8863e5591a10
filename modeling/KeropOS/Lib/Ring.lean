import Mathlib.Data.Fin.Basic
import Mathlib.Data.Nat.ModEq
import Mathlib.Logic.Function.Basic

/-!
# Queues in a ring of cells

A queue of at most `N` elements, in an array of `N` cells with the indices of its first and its last element;
both are `-1` when it is empty. An element more is dropped.

* `Ring`, `create`, `enqueue`, `dequeue`; `map_enqueue`, `map_dequeue`: they do not look at the elements;
* `Holds`: the queue holds the elements of a list, in their order;
* **`Holds.enqueue`**, **`Holds.dequeue`**: what the operations do to the list;
* `Fifo`: a list of at most `N` elements, as a queue; `Holds.front_iff`, `Holds.indices`, `Holds.full`.
-/

namespace Rings

variable {α β : Type*} {N : ℕ}

structure Ring (α : Type*) (N : ℕ) where
  items : Fin N → α
  front : ℤ
  rear : ℤ

namespace Ring

/-- An empty queue, with anything in its cells. -/
def create (items : Fin N → α) : Ring α N := ⟨items, -1, -1⟩

variable [NeZero N]

/-- The cell at an index. -/
def cellAt (i : ℤ) : Fin N := Fin.ofNat N i.toNat

/-- An element behind the last; it is dropped when the ring is full. -/
def enqueue (q : Ring α N) (a : α) : Ring α N :=
  if (q.rear + 1) % N = q.front then q
  else
    { items := Function.update q.items (cellAt ((q.rear + 1) % N)) a
      front := if q.front = -1 then 0 else q.front
      rear := (q.rear + 1) % N }

/-- The first element and the rest; nothing when there is none. -/
def dequeue (q : Ring α N) : Option (α × Ring α N) :=
  if q.front = -1 then none
  else
    some (q.items (cellAt q.front),
      if q.front = q.rear then { q with front := -1, rear := -1 } else { q with front := (q.front + 1) % N })

/-- The ring with something made of each element. -/
def map (f : α → β) (q : Ring α N) : Ring β N := ⟨fun i => f (q.items i), q.front, q.rear⟩

theorem map_enqueue (f : α → β) (q : Ring α N) (a : α) : (q.enqueue a).map f = (q.map f).enqueue (f a) := by
  by_cases hfull : (q.rear + 1) % N = q.front
  · have hmap : ((q.map f).rear + 1) % N = (q.map f).front := hfull
    rw [enqueue, enqueue, if_pos hfull, if_pos hmap]
  · have hmap : ¬ ((q.map f).rear + 1) % N = (q.map f).front := hfull
    have hitems : (fun i => f (Function.update q.items (cellAt ((q.rear + 1) % N)) a i)) =
        Function.update (q.map f).items (cellAt ((q.rear + 1) % N)) (f a) := by
      funext i
      exact Function.apply_update (fun _ => f) q.items _ a i
    rw [enqueue, enqueue, if_neg hfull, if_neg hmap, map]
    simp only [hitems]
    rfl

theorem map_dequeue (f : α → β) (q : Ring α N) :
    (q.map f).dequeue = q.dequeue.map fun r => (f r.1, r.2.map f) := by
  unfold dequeue
  by_cases hempty : q.front = -1
  · rw [if_pos hempty]
    exact if_pos hempty
  · rw [if_neg hempty]
    refine (if_neg hempty).trans ?_
    by_cases hlast : q.front = q.rear
    · rw [if_pos hlast, if_pos (show (q.map f).front = (q.map f).rear from hlast)]
      rfl
    · rw [if_neg hlast, if_neg (show ¬ (q.map f).front = (q.map f).rear from hlast)]
      rfl

/-- Element `k` of the list lies `k` cells behind the first, around the ring. -/
inductive Holds (q : Ring α N) : List α → Prop
  | empty : q.front = -1 → q.rear = -1 → Holds q []
  | cells {a : α} {l : List α} {f : ℕ} : f < N → q.front = f → l.length < N →
      q.rear = ((f + l.length) % N : ℕ) →
        (∀ k (h : k < (a :: l).length), q.items (Fin.ofNat N (f + k)) = (a :: l)[k]) →
      Holds q (a :: l)

variable {q : Ring α N} {a : α} {l : List α}

theorem cellAt_natCast (n : ℕ) : (cellAt (n : ℤ) : Fin N) = Fin.ofNat N n := rfl

theorem ofNat_eq_iff {m n : ℕ} : Fin.ofNat N m = Fin.ofNat N n ↔ m % N = n % N := Fin.ext_iff

theorem ofNat_mod (n : ℕ) : Fin.ofNat N (n % N) = Fin.ofNat N n := ofNat_eq_iff.mpr (Nat.mod_mod n N)

omit [NeZero N] in
/-- The index behind another one. -/
theorem succ_mod (n : ℕ) : (((n % N : ℕ) : ℤ) + 1) % N = ((n + 1) % N : ℕ) := by
  rw [Int.natCast_mod, Int.natCast_mod, Int.emod_add_emod]
  rfl

omit [NeZero N] in
/-- Two cells of less than `N` steps differ. -/
theorem mod_ne {f j k : ℕ} (hjk : j < k) (hk : k < f + N) (hf : f ≤ j) : j % N ≠ k % N := by
  intro h
  have := (Nat.modEq_iff_dvd' hjk.le).mp h
  have := Nat.le_of_dvd (by omega) this
  omega

namespace Holds

theorem create (items : Fin N → α) : Holds (Ring.create items) [] := .empty rfl rfl

theorem dequeue_nil (h : Holds q []) : q.dequeue = none := by
  cases h with
  | empty hf _ => exact if_pos hf

/-- **The first element leaves.** -/
theorem dequeue (h : Holds q (a :: l)) : ∃ q', q.dequeue = some (a, q') ∧ Holds q' l := by
  cases h with
  | @cells _ _ f hf hfront hlen hrear hitems =>
    have hne : q.front ≠ -1 := by omega
    have hfirst : q.items (cellAt q.front) = a := by
      rw [hfront, cellAt_natCast]
      exact hitems 0 (Nat.zero_lt_succ _)
    rw [Ring.dequeue, if_neg hne, hfirst]
    refine ⟨_, rfl, ?_⟩
    cases l with
    | nil =>
      have hlast : q.front = q.rear := by
        rw [hfront, hrear, List.length_nil, Nat.add_zero, Nat.mod_eq_of_lt hf]
      rw [if_pos hlast]
      exact .empty rfl rfl
    | cons b l =>
      rw [List.length_cons] at hlen
      have hmore : q.front ≠ q.rear := by
        rw [hfront, hrear, List.length_cons]
        have := mod_ne (N := N) (f := f) (j := f) (k := f + (l.length + 1)) (by omega) (by omega) le_rfl
        rw [Nat.mod_eq_of_lt hf] at this
        exact_mod_cast this
      have hnext : (q.front + 1) % N = ((f + 1) % N : ℕ) := by
        rw [hfront, ← Nat.mod_eq_of_lt hf, succ_mod, Nat.mod_eq_of_lt hf]
      rw [if_neg hmore]
      refine .cells (Nat.mod_lt _ (Nat.pos_of_neZero N)) hnext (by omega) ?_ fun k hk => ?_
      · show q.rear = _
        rw [hrear, List.length_cons, Nat.mod_add_mod, Nat.add_assoc, Nat.add_comm 1]
      · show q.items _ = _
        rw [ofNat_eq_iff.mpr (Nat.mod_add_mod (f + 1) N k), Nat.add_assoc, Nat.add_comm 1]
        exact hitems (k + 1) (Nat.succ_lt_succ hk)

/-- **An element goes behind the last**, when there is room. -/
theorem enqueue (h : Holds q l) (hroom : l.length < N) : Holds (q.enqueue a) (l ++ [a]) := by
  cases h with
  | empty hfront hrear =>
    have hzero : (q.rear + 1) % N = 0 := by rw [hrear, neg_add_cancel, Int.zero_emod]
    rw [Ring.enqueue, if_neg (by rw [hzero, hfront]; decide)]
    refine .cells (f := 0) (Nat.pos_of_neZero N) (if_pos hfront) (Nat.pos_of_neZero N) ?_ fun k hk => ?_
    · show (q.rear + 1) % N = _
      rw [hzero, List.length_nil, Nat.zero_mod]
      rfl
    · obtain rfl : k = 0 := Nat.lt_one_iff.mp hk
      show Function.update q.items (cellAt ((q.rear + 1) % N)) a _ = _
      rw [hzero]
      exact Function.update_self ..
  | @cells b l f hf hfront hlen hrear hitems =>
    rw [List.length_cons] at hroom
    have hnext : (q.rear + 1) % N = ((f + (l.length + 1)) % N : ℕ) := by rw [hrear, succ_mod, Nat.add_assoc]
    have hne : (q.rear + 1) % N ≠ q.front := by
      rw [hnext, hfront]
      have := mod_ne (N := N) (f := f) (j := f) (k := f + (l.length + 1)) (by omega) (by omega) le_rfl
      rw [Nat.mod_eq_of_lt hf] at this
      exact_mod_cast this.symm
    rw [Ring.enqueue, if_neg hne, List.cons_append]
    have hlength : (l ++ [a]).length = l.length + 1 := by rw [List.length_append, List.length_singleton]
    refine .cells hf ?_ (by omega) ?_ fun k hk => ?_
    · exact (if_neg (by omega)).trans hfront
    · show (q.rear + 1) % N = _
      rw [hnext, hlength]
    · show Function.update q.items (cellAt ((q.rear + 1) % N)) a _ = _
      rw [hnext, cellAt_natCast, ofNat_mod]
      rw [List.length_cons, hlength] at hk
      rcases Nat.lt_succ_iff_lt_or_eq.mp hk with hlt | rfl
      · have hold : Fin.ofNat N (f + k) ≠ Fin.ofNat N (f + (l.length + 1)) := fun he =>
          mod_ne (N := N) (f := f) (by omega) (by omega) (by omega) (ofNat_eq_iff.mp he)
        rw [Function.update_of_ne hold, hitems k hlt]
        exact (List.getElem_append_left hlt : (b :: l ++ [a])[k] = (b :: l)[k]).symm
      · rw [Function.update_self]
        exact (List.getElem_concat_length (l := b :: l) rfl _).symm

/-- The first index tells whether there is an element. -/
theorem front_iff (h : Holds q l) : q.front = -1 ↔ l = [] := by
  cases h with
  | empty hfront _ => exact iff_of_true hfront rfl
  | cells _ hfront _ _ _ => exact iff_of_false (by omega) (List.cons_ne_nil _ _)

/-- Both indices are `-1`, or both are those of cells. -/
theorem indices (h : Holds q l) :
    q.front = -1 ∧ q.rear = -1 ∨ (0 ≤ q.front ∧ q.front < N) ∧ 0 ≤ q.rear ∧ q.rear < N := by
  cases h with
  | empty hfront hrear => exact .inl ⟨hfront, hrear⟩
  | @cells _ l f hf hfront _ hrear _ =>
    have := Nat.mod_lt (f + l.length) (Nat.pos_of_neZero N)
    exact .inr ⟨by omega, by omega, by omega⟩

/-- The index behind the last is the first one when the ring is full, and then only. -/
theorem full (h : Holds q l) : (q.rear + 1) % N = q.front ↔ l.length = N := by
  cases h with
  | empty hfront hrear =>
    have hN := Nat.pos_of_neZero N
    rw [hrear, hfront, neg_add_cancel, Int.zero_emod, List.length_nil]
    omega
  | @cells b l f hf hfront hlen hrear _ =>
    rw [hrear, succ_mod, hfront, Nat.add_assoc, List.length_cons]
    constructor
    · intro he
      by_contra hne
      have := mod_ne (N := N) (f := f) (j := f) (k := f + (l.length + 1)) (by omega) (by omega) le_rfl
      rw [Nat.mod_eq_of_lt hf] at this
      exact this (by exact_mod_cast he.symm)
    · rintro he
      rw [he, Nat.add_mod_right, Nat.mod_eq_of_lt hf]

end Holds

end Ring

/-! ## Bounded queues -/

/-- The elements that wait, the oldest first. -/
structure Fifo (α : Type*) (N : ℕ) where
  waiting : List α
  le : waiting.length ≤ N

namespace Fifo

def empty : Fifo α N := ⟨[], Nat.zero_le _⟩

/-- An element goes behind the others, unless there are `N`. -/
def enqueue (queue : Fifo α N) (a : α) : Fifo α N :=
  if h : queue.waiting.length < N then
    ⟨queue.waiting ++ [a], by rw [List.length_append, List.length_singleton]; exact h⟩
  else queue

/-- The rest, behind the oldest. -/
def rest (queue : Fifo α N) : Fifo α N :=
  ⟨queue.waiting.tail, by rw [List.length_tail]; exact (Nat.sub_le _ _).trans queue.le⟩

end Fifo

end Rings
