import KeropOS.Fat.Lookup
import Mathlib.Logic.Relation

/-!
# What lies below a folder

`delete` takes a folder for empty when its slot 1 is free. The directories below go with it.

* `Inside`: a folder of a directory; `Below`: at any depth;
* **`Inv.acyclic`**: no directory lies below itself;
* **`Cleared.live_iff`**: the directories that a `delete` leaves; `Cleared.held_iff`: the entries;
* `Cleared.live_parent`: the directory it clears a slot of is one of them.
-/

namespace KeropOS

open Packed Linked Transition Relation

/-- `c` is a folder of `p`. -/
def Inside (s : Fs) (p c : ℕ) : Prop := ∃ i, Child s p i c

/-- `p` is `c`, or lies in it at any depth. -/
def Below (s : Fs) (c p : ℕ) : Prop := ReflTransGen (Inside s) c p

variable {s s' : Fs} {p q P c : ℕ} {i n : Fin 64} {l : List ℕ}

/-- **No directory lies below itself.** The induction goes up: a cycle through a folder comes back to it from
the directory it is in. -/
theorem Inv.acyclic (hs : Inv s) (hp : Live s p) : ¬ TransGen (Inside s) p p := by
  induction hp with
  | root =>
    intro h
    obtain ⟨q, -, i, hi⟩ := TransGen.tail'_iff.mp h
    have := hi.three_le hs
    omega
  | @sub q i hq hi hu hattr ih =>
    intro h
    have hchild : Child s q i (tableAt s q i).cluster.toNat := ⟨⟨hq, hi, hu⟩, hattr, rfl⟩
    obtain ⟨q', hreach, j, hj⟩ := TransGen.tail'_iff.mp h
    obtain ⟨rfl, -⟩ := hj.unique hchild hs
    exact ih (TransGen.head' ⟨j, hj⟩ hreach)

namespace Cleared

variable (h : Cleared s s' P n l) (hs : Inv s)

include h hs

/-- Nothing is left below the folder cleared. -/
theorem not_live_of_below (hc : Child s P n c) (hp : Below s c p) : ¬ Live s' p := by
  induction hp with
  | refl =>
    intro hlive
    apply (h.live_cases hs hlive).2
    rw [← hc.cluster]
    exact h.sound.chain.head_mem
  | @tail q p _ hqp ih =>
    obtain ⟨i, hi⟩ := hqp
    intro hlive
    rcases (h.inv hs).live_cases hlive with rfl | ⟨q', j, hheld, hattr, hcluster, -⟩
    · have := hi.three_le hs
      omega
    · have heq := h.tableAt_held hs hheld
      have hchild : Child s q' j p := ⟨(h.held_cases hs hheld).1, heq ▸ hattr, heq ▸ hcluster⟩
      obtain ⟨rfl, -⟩ := hchild.unique hi hs
      exact ih hheld.live

/-- **The directories that a `delete` leaves** are those that do not lie below a folder cleared. -/
theorem live_iff : Live s' p ↔ Live s p ∧ ∀ c, Child s P n c → ¬ Below s c p := by
  constructor
  · intro hlive
    exact ⟨(h.live_cases hs hlive).1, fun c hc hbelow => h.not_live_of_below hs hc hbelow hlive⟩
  · rintro ⟨hlive, hnot⟩
    induction hlive with
    | root => exact .root
    | @sub q i hq hi hu hattr ih =>
      have hchild : Child s q i (tableAt s q i).cluster.toNat := ⟨⟨hq, hi, hu⟩, hattr, rfl⟩
      have hlive' := ih fun c hc hbelow => hnot c hc (hbelow.tail ⟨i, hchild⟩)
      have hne : ¬ (q = P ∧ i = n) := by
        rintro ⟨rfl, rfl⟩
        exact hnot _ hchild .refl
      have heq := h.tableAt_ne hs hq (h.live_cases hs hlive').2 hne
      rw [← heq] at hu hattr ⊢
      exact .sub hlive' hi hu hattr

theorem live_parent : Live s' P :=
  (h.live_iff hs).mpr ⟨h.held.live, fun _ hc hbelow => hs.acyclic h.held.live (TransGen.head' ⟨n, hc⟩ hbelow)⟩

/-- The entries that are left. -/
theorem held_iff : Held s' p i ↔ Held s p i ∧ Live s' p ∧ ¬ (p = P ∧ i = n) := by
  constructor
  · intro hp
    obtain ⟨hp', -, hne⟩ := h.held_cases hs hp
    exact ⟨hp', hp.live, hne⟩
  · rintro ⟨hp, hlive, hne⟩
    refine ⟨hlive, hp.slot, ?_⟩
    rw [h.tableAt_ne hs hp.live (h.live_cases hs hlive).2 hne]
    exact hp.inUse

omit hs in
/-- A `delete` takes no empty cell. -/
theorem length_emptyCells_le : (emptyCells s.cluster_map).length ≤ (emptyCells s'.cluster_map).length := by
  refine (List.subperm_of_subset (nodup_emptyCells _) fun k hk => ?_).length_le
  obtain ⟨hb, hk⟩ := mem_emptyCells.mp hk
  refine mem_emptyCells.mpr ⟨hb, ?_⟩
  rw [h.map]
  split_ifs
  · rfl
  · exact hk

end Cleared

end KeropOS
