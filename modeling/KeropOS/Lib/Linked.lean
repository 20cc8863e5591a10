import Mathlib.Data.List.Nodup
import Mathlib.Data.List.Infix

/-!
# Finite chains of a successor function

`ChainFrom next a l`: starting at `a`, the successor function runs through exactly the cells `l`
and stops.

* **`ChainFrom.unique`**: a cell heads at most one chain;
* **`ChainFrom.nodup`**: a chain repeats no cell;
* `ChainFrom.congr`: a chain depends only on the successors of its own cells;
* `ChainFrom.tail_of_mem`: every cell of a chain heads the rest of it.
-/

namespace Linked

variable {α : Type*} {next next' : α → Option α} {a b x : α} {l l' : List α}

/-- The cells from `a` to the end. -/
inductive ChainFrom (next : α → Option α) : α → List α → Prop
  | last {a : α} : next a = none → ChainFrom next a [a]
  | link {a b : α} {l : List α} : next a = some b → ChainFrom next b l → ChainFrom next a (a :: l)

namespace ChainFrom

theorem eq_cons (h : ChainFrom next a l) : ∃ t, l = a :: t := by
  cases h with
  | last _ => exact ⟨[], rfl⟩
  | link _ _ => exact ⟨_, rfl⟩

theorem head_eq {b : α} (h : ChainFrom next a (b :: l)) : a = b := by
  cases h with
  | last _ => rfl
  | link _ _ => rfl

theorem head_mem (h : ChainFrom next a l) : a ∈ l := by
  obtain ⟨t, rfl⟩ := h.eq_cons
  exact List.mem_cons_self

theorem length_pos (h : ChainFrom next a l) : 0 < l.length :=
  List.length_pos_of_mem h.head_mem

theorem unique (h : ChainFrom next a l) (h' : ChainFrom next a l') : l = l' := by
  induction h generalizing l' with
  | last hn =>
    cases h' with
    | last _ => rfl
    | link hn' _ => rw [hn] at hn'; exact absurd hn' (by simp)
  | link hn _ ih =>
    cases h' with
    | last hn' => rw [hn] at hn'; exact absurd hn' (by simp)
    | link hn' ht =>
      obtain rfl := Option.some.inj (hn.symm.trans hn')
      rw [ih ht]

theorem congr (h : ChainFrom next a l) (hl : ∀ x ∈ l, next x = next' x) :
    ChainFrom next' a l := by
  induction h with
  | last hn => exact .last (by rw [← hl _ (by simp), hn])
  | link hn _ ih =>
    exact .link (by rw [← hl _ (by simp), hn]) (ih fun x hx => hl x (List.mem_cons_of_mem _ hx))

theorem tail_of_mem (h : ChainFrom next a l) (hx : x ∈ l) : ∃ t, ChainFrom next x t ∧ t <:+ l := by
  induction h with
  | last hn =>
    obtain rfl := List.mem_singleton.mp hx
    exact ⟨_, .last hn, List.suffix_refl _⟩
  | link hn ht ih =>
    rcases List.mem_cons.mp hx with rfl | hx
    · exact ⟨_, .link hn ht, List.suffix_refl _⟩
    · obtain ⟨t, h1, h2⟩ := ih hx
      exact ⟨t, h1, h2.trans (List.suffix_cons _ _)⟩

/-- **A chain repeats no cell**: a repeated cell would head two different chains. -/
theorem nodup (h : ChainFrom next a l) : l.Nodup := by
  induction h with
  | last _ => simp
  | link hn ht ih =>
    refine List.nodup_cons.mpr ⟨fun hmem => ?_, ih⟩
    obtain ⟨t, h1, h2⟩ := ht.tail_of_mem hmem
    have hlen := h2.length_le
    rw [h1.unique (.link hn ht), List.length_cons] at hlen
    omega

/-- The successor of a chain's cell is again in the chain, unless the chain ends there. -/
theorem next_mem (h : ChainFrom next a l) (hx : x ∈ l) (hb : next x = some b) : b ∈ l := by
  obtain ⟨t, ht, hsub⟩ := h.tail_of_mem hx
  cases ht with
  | last hn => rw [hn] at hb; exact absurd hb (by simp)
  | link hn ht =>
    obtain rfl := Option.some.inj (hn.symm.trans hb)
    exact hsub.subset (List.mem_cons_of_mem _ ht.head_mem)

/-- A chain ends in a cell without a successor. -/
theorem ends (h : ChainFrom next a l) : ∃ k b, l = k ++ [b] ∧ next b = none := by
  induction h with
  | last hn => exact ⟨[], _, rfl, hn⟩
  | link _ _ ih =>
    obtain ⟨k, b, hk, hb⟩ := ih
    exact ⟨_ :: k, b, by rw [hk]; rfl, hb⟩

end ChainFrom

end Linked
