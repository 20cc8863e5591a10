import Mathlib.Data.List.Basic

/-!
# Segments between separators

* `Segment sep s p w`: `w` is a maximal stretch of `s` without a separator, and not empty, at index `p`;
  **`Segment.unique`**: two that meet are the same;
* `Listed sep s l`: `l` lists the segments of `s` in their order; **`Listed.mem_iff`**;
* `first_segment`: a list is separators, or has a first segment; **`Listed.separators`**, **`Listed.last`**,
  **`Listed.cons`**: the list of segments by the first one;
* `pieces`: the segments without their indices; `pieces_separators`, `pieces_last`, `pieces_cons`.
-/

namespace Segments

variable {α : Type*} {sep : α → Prop}

/-- A maximal stretch without a separator. -/
structure Segment (sep : α → Prop) (s : List α) (p : ℕ) (w : List α) : Prop where
  nonempty : w ≠ []
  here : ∀ k (h : k < w.length), s[p + k]? = some w[k]
  free : ∀ c ∈ w, ¬ sep c
  before : 0 < p → ∀ c, s[p - 1]? = some c → sep c
  behind : ∀ c, s[p + w.length]? = some c → sep c

/-- The segments with their indices, in their order. -/
structure Listed (sep : α → Prop) (s : List α) (l : List (ℕ × List α)) : Prop where
  ordered : l.Pairwise fun x y => x.1 + x.2.length < y.1
  sound : ∀ x ∈ l, Segment sep s x.1 x.2
  covers : ∀ a c, s[a]? = some c → ¬ sep c → ∃ x ∈ l, x.1 ≤ a ∧ a < x.1 + x.2.length

section

variable {s t u v w : List α} {d : α} {p q a : ℕ} {l : List (ℕ × List α)}

namespace Segment

theorem free_at (h : Segment sep s p w) (ha : p ≤ a) (hlt : a < p + w.length) {c : α} (hc : s[a]? = some c) :
    ¬ sep c := by
  have hk : a - p < w.length := by omega
  have := h.here (a - p) hk
  rw [Nat.add_sub_cancel' ha, hc, Option.some.injEq] at this
  rw [this]
  exact h.free _ (List.getElem_mem hk)

theorem le_start (h : Segment sep s p w) (h' : Segment sep s q v) (ha : p ≤ a) (hlt : a < q + v.length) :
    p ≤ q := by
  by_contra hpq
  have hp : p - 1 - q < v.length := by omega
  have hc := h'.here (p - 1 - q) hp
  rw [show q + (p - 1 - q) = p - 1 by omega] at hc
  exact h'.free_at (by omega) (by omega) hc (h.before (by omega) _ hc)

theorem end_le (h : Segment sep s p w) (h' : Segment sep s p v) : w.length ≤ v.length := by
  by_contra hlt
  have hc := h.here v.length (by omega)
  exact h.free_at (by omega) (by omega) hc (h'.behind _ hc)

/-- **Two segments that meet are the same.** -/
theorem unique (h : Segment sep s p w) (h' : Segment sep s q v) (ha : p ≤ a) (hlt : a < p + w.length)
    (ha' : q ≤ a) (hlt' : a < q + v.length) : p = q ∧ w = v := by
  obtain rfl : p = q := Nat.le_antisymm (h.le_start h' ha hlt') (h'.le_start h ha' hlt)
  refine ⟨rfl, List.ext_getElem (Nat.le_antisymm (h.end_le h') (h'.end_le h)) fun k hk hk' => ?_⟩
  have := h.here k hk
  rw [h'.here k hk', Option.some.injEq] at this
  exact this.symm

/-- Behind a separator, a segment stays one. -/
theorem shift (h : Segment sep t p w) (hd : sep d) (u : List α) :
    Segment sep (u ++ d :: t) (u.length + 1 + p) w := by
  have hat : ∀ k, (u ++ d :: t)[u.length + 1 + k]? = t[k]? := by
    intro k
    rw [List.getElem?_append_right (by omega), show u.length + 1 + k - u.length = k + 1 by omega,
      List.getElem?_cons_succ]
  refine ⟨h.nonempty, fun k hk => ?_, h.free, fun _ c hc => ?_, fun c hc => ?_⟩
  · rw [Nat.add_assoc, hat]
    exact h.here k hk
  · by_cases hp : p = 0
    · subst hp
      rw [List.getElem?_append_right (by omega), show u.length + 1 + 0 - 1 - u.length = 0 by omega] at hc
      exact Option.some.inj hc ▸ hd
    · rw [show u.length + 1 + p - 1 = u.length + 1 + (p - 1) by omega, hat] at hc
      exact h.before (by omega) c hc
  · rw [Nat.add_assoc, hat] at hc
    exact h.behind c hc

/-- The first segment, with anything behind it that starts with a separator. -/
theorem first (hu : ∀ c ∈ u, sep c) (hw : w ≠ []) (hfree : ∀ c ∈ w, ¬ sep c)
    (hv : v = [] ∨ ∃ d t, v = d :: t ∧ sep d) : Segment sep (u ++ w ++ v) u.length w := by
  refine ⟨hw, fun k hk => ?_, hfree, fun hpos c hc => ?_, fun c hc => ?_⟩
  · rw [List.append_assoc, List.getElem?_append_right (by omega), Nat.add_sub_cancel_left,
      List.getElem?_append_left hk, List.getElem?_eq_getElem hk]
  · rw [List.append_assoc, List.getElem?_append_left (by omega)] at hc
    exact hu c (List.mem_of_getElem? hc)
  · rw [List.getElem?_append_right (by simp), List.length_append, Nat.sub_self] at hc
    rcases hv with rfl | ⟨d, t, rfl, hd⟩
    · simp at hc
    · exact Option.some.inj hc ▸ hd

end Segment

/-- A list is separators, or it has a first segment, which it ends with or which a separator follows. -/
theorem first_segment [DecidablePred sep] (s : List α) : (∀ c ∈ s, sep c) ∨
    ∃ u w v, s = u ++ w ++ v ∧ (∀ c ∈ u, sep c) ∧ w ≠ [] ∧ (∀ c ∈ w, ¬ sep c) ∧
      (v = [] ∨ ∃ d t, v = d :: t ∧ sep d) := by
  induction s with
  | nil => exact .inl fun c hc => absurd hc List.not_mem_nil
  | cons a s ih =>
    by_cases ha : sep a
    · rcases ih with hall | ⟨u, w, v, rfl, hu, hw, hfree, hv⟩
      · exact .inl (List.forall_mem_cons.mpr ⟨ha, hall⟩)
      · exact .inr ⟨a :: u, w, v, rfl, List.forall_mem_cons.mpr ⟨ha, hu⟩, hw, hfree, hv⟩
    · right
      rcases ih with hall | ⟨u, w, v, rfl, hu, hw, hfree, hv⟩
      · refine ⟨[], [a], s, rfl, fun c hc => absurd hc List.not_mem_nil,
          List.cons_ne_nil _ _, by simpa using ha,
          ?_⟩
        cases s with
        | nil => exact .inl rfl
        | cons d s => exact .inr ⟨d, s, rfl, hall d (List.mem_cons_self ..)⟩
      · cases u with
        | nil => exact ⟨[], a :: w, v, rfl, hu, List.cons_ne_nil _ _,
          List.forall_mem_cons.mpr ⟨ha, hfree⟩, hv⟩
        | cons d u =>
          exact ⟨[], [a], d :: u ++ w ++ v, rfl, fun c hc => absurd hc List.not_mem_nil,
            List.cons_ne_nil _ _, by simpa using ha, .inr ⟨d, u ++ w ++ v, rfl, hu d (List.mem_cons_self ..)⟩⟩

namespace Listed

/-- **What is listed are the segments.** -/
theorem mem_iff (h : Listed sep s l) : (p, w) ∈ l ↔ Segment sep s p w := by
  constructor
  · exact h.sound _
  · intro hseg
    have hpos := List.length_pos_iff.mpr hseg.nonempty
    have hfirst := hseg.here 0 hpos
    have hfree : ¬ sep w[0] := hseg.free _ (List.getElem_mem hpos)
    obtain ⟨x, hx, hle, hlt⟩ := h.covers _ _ hfirst hfree
    obtain ⟨hp, hw⟩ := hseg.unique (h.sound x hx) (a := p) (Nat.le_refl p) (by omega) hle hlt
    rw [hp, hw]
    exact hx

theorem separators (h : ∀ c ∈ s, sep c) : Listed sep s [] where
  ordered := .nil
  sound _ hx := absurd hx List.not_mem_nil
  covers _ c hc hsep := absurd (h c (List.mem_of_getElem? hc)) hsep

/-- The text ends with its first segment. -/
theorem last (hu : ∀ c ∈ u, sep c) (hw : w ≠ []) (hfree : ∀ c ∈ w, ¬ sep c) :
    Listed sep (u ++ w) [(u.length, w)] where
  ordered := List.pairwise_singleton ..
  sound x hx := by
    rw [List.mem_singleton.mp hx, ← List.append_nil (u ++ w)]
    exact Segment.first hu hw hfree (.inl rfl)
  covers a c hc hsep := by
    refine ⟨_, List.mem_singleton_self _, ?_, ?_⟩
    · by_contra hlt
      rw [List.getElem?_append_left (by simpa using hlt)] at hc
      exact hsep (hu c (List.mem_of_getElem? hc))
    · obtain ⟨hlt, -⟩ := List.getElem?_eq_some_iff.mp hc
      simpa using hlt

/-- A separator is behind the first segment, and the others are those of the rest. -/
theorem cons (hu : ∀ c ∈ u, sep c) (hw : w ≠ []) (hfree : ∀ c ∈ w, ¬ sep c) (hd : sep d)
    (h : Listed sep t l) :
    Listed sep (u ++ w ++ d :: t)
      ((u.length, w) :: l.map fun x => (u.length + w.length + 1 + x.1, x.2)) where
  ordered := by
    rw [List.pairwise_cons, List.pairwise_map]
    refine ⟨fun x hx => ?_, h.ordered.imp fun hlt => ?_⟩
    · obtain ⟨y, -, rfl⟩ := List.mem_map.mp hx
      show u.length + w.length < u.length + w.length + 1 + y.1
      omega
    · simp only
      omega
  sound x hx := by
    rcases List.mem_cons.mp hx with rfl | hx
    · exact Segment.first hu hw hfree (.inr ⟨d, t, rfl, hd⟩)
    · obtain ⟨y, hy, rfl⟩ := List.mem_map.mp hx
      have := (h.sound y hy).shift hd (u ++ w)
      rwa [List.length_append] at this
  covers a c hc hsep := by
    by_cases hlt : a < (u ++ w).length
    · rw [List.getElem?_append_left hlt] at hc
      obtain ⟨x, hx, hcover⟩ := (last hu hw hfree).covers a c hc hsep
      rw [List.mem_singleton.mp hx] at hcover
      exact ⟨_, List.mem_cons_self .., hcover⟩
    · rw [List.getElem?_append_right (Nat.le_of_not_lt hlt)] at hc
      rcases hk : a - (u ++ w).length with _ | k
      · rw [hk] at hc
        exact absurd (Option.some.inj hc ▸ hd) hsep
      · rw [hk, List.getElem?_cons_succ] at hc
        obtain ⟨x, hx, hle, hend⟩ := h.covers k c hc hsep
        rw [List.length_append] at hk
        refine ⟨_, List.mem_cons_of_mem _ (List.mem_map_of_mem hx), ?_, ?_⟩
        · show u.length + w.length + 1 + x.1 ≤ a
          omega
        · show a < u.length + w.length + 1 + x.1 + x.2.length
          omega

end Listed

end

/-! ## Without the indices -/

/-- The segments between separators. -/
def pieces [DecidableEq α] (sep : α → Bool) (s : List α) : List (List α) := (s.splitOnP sep).filter (· ≠ [])

section

variable [DecidableEq α] {sep : α → Bool} {t u w : List α} {d : α}

theorem pieces_separator (hd : sep d = true) : pieces sep (d :: t) = pieces sep t := by
  unfold pieces
  rw [List.splitOnP_cons_eq_if_modifyHead, if_pos hd, List.filter_cons_of_neg (by simp)]

theorem pieces_separators (hu : ∀ c ∈ u, sep c = true) : pieces sep (u ++ t) = pieces sep t := by
  induction u with
  | nil => rfl
  | cons d u ih =>
    rw [List.cons_append, pieces_separator (hu d (List.mem_cons_self ..))]
    exact ih fun c hc => hu c (List.mem_cons_of_mem _ hc)

theorem pieces_last (hw : w ≠ []) (hfree : ∀ c ∈ w, sep c = false) : pieces sep w = [w] := by
  unfold pieces
  rw [List.splitOnP_eq_singleton hfree, List.filter_cons_of_pos (by simpa using hw)]
  rfl

theorem pieces_cons (hw : w ≠ []) (hfree : ∀ c ∈ w, sep c = false) (hd : sep d = true) :
    pieces sep (w ++ d :: t) = w :: pieces sep t := by
  unfold pieces
  rw [List.splitOnP_append_cons_of_forall_mem hfree d hd, List.filter_cons_of_pos (by simpa using hw)]

end

end Segments
