import KeropOS.Proc.Conservation

/-!
# Giving a page directory back

The loop of `paging_free_page_directory` returns in its first round.

* `clearedDirectory`: what the function is to do; `Releases`: for which pointer it does what;
* **`free_page_directory_releases_iff`**: the pointers for which it does;
* **`create_then_free_iff`**: the directories that come back;
* **`release_iff`**: both.
-/

namespace KeropOS

variable {L : Linkage} {p q : Paging} {a : UInt32} {d k : Fin 32}

/-- Directory `k` is unused and all its entries are zero. -/
def clearedDirectory (p : Paging) (k : Fin 32) : Paging :=
  { p with
    page_directory_used := Function.update p.page_directory_used k false
    page_directory_list := Function.update p.page_directory_list k fun _ => {} }

/-- `paging_free_page_directory` clears the directory the pointer is the address of, and returns true;
for a pointer that is none of these it returns false and changes nothing. -/
structure Releases (L : Linkage) (p : Paging) (a : UInt32) : Prop where
  element : ∀ k, a = L.dir k → paging_free_page_directory L p a = (true, clearedDirectory p k)
  foreign : (∀ k, a ≠ L.dir k) → paging_free_page_directory L p a = (false, p)

theorem dropDirectory_eq (p : Paging) : dropDirectory p = clearedDirectory p 0 := rfl

/-- A directory that is unused and zero is as if cleared. -/
theorem clearedDirectory_eq_self_iff :
    clearedDirectory p k = p ↔ p.page_directory_used k = false ∧ ∀ j, p.page_directory_list k j = {} := by
  constructor
  · intro h
    constructor
    · rw [← h]
      exact Function.update_self _ _ _
    · intro j
      rw [← h]
      simp only [clearedDirectory, Function.update_self]
  · rintro ⟨hused, hzero⟩
    have hlist : (fun _ => {}) = p.page_directory_list k := (funext hzero).symm
    unfold clearedDirectory
    rw [hlist, ← hused, Function.update_eq_self, Function.update_eq_self]

/-- The function for directory 0, and for every other pointer. -/
theorem free_page_directory_zero : paging_free_page_directory L p (L.dir 0) = (true, clearedDirectory p 0) := by
  rw [free_page_directory_eq, if_pos rfl, dropDirectory_eq]

theorem free_page_directory_other (h : a ≠ L.dir 0) : paging_free_page_directory L p a = (true, p) := by
  rw [free_page_directory_eq, if_neg h.symm]

/-- **When a directory is given back**: the pointer is that of directory 0, or of one that is unused and zero
already. -/
theorem free_page_directory_releases_iff : Releases L p a ↔
    a = L.dir 0 ∨ ∃ k, a = L.dir k ∧ p.page_directory_used k = false ∧ ∀ j, p.page_directory_list k j = {} := by
  by_cases h0 : a = L.dir 0
  · refine iff_of_true ⟨fun k hk => ?_, fun h => absurd h0 (h 0)⟩ (.inl h0)
    obtain rfl := L.dir_injective (h0.symm.trans hk)
    rw [h0]
    exact free_page_directory_zero
  · rw [or_iff_right h0]
    have hfree := free_page_directory_other (p := p) h0
    constructor
    · intro h
      by_cases hk : ∃ k, a = L.dir k
      · obtain ⟨k, hk⟩ := hk
        have hclear := (Prod.mk.inj ((h.element k hk).symm.trans hfree)).2
        exact ⟨k, hk, clearedDirectory_eq_self_iff.mp hclear⟩
      · have := (Prod.mk.inj ((h.foreign fun k hk' => hk ⟨k, hk'⟩).symm.trans hfree)).1
        exact absurd this (by simp)
    · rintro ⟨k, rfl, hclean⟩
      refine ⟨fun k' hk' => ?_, fun h => absurd rfl (h k)⟩
      obtain rfl := L.dir_injective hk'
      rw [hfree, clearedDirectory_eq_self_iff.mpr hclean]

/-- The first unused directory is the one that is taken. -/
theorem create_new_page_directory_first (h : FirstWith (fun i => p.page_directory_used i = false) d) :
    paging_create_new_page_directory p = some (d, takeDirectory p d) := by
  rcases create_new_page_directory_cases p with ⟨k, hk, hq⟩ | ⟨hall, -⟩
  · rcases lt_trichotomy k d with hlt | rfl | hlt
    · exact absurd hk.1 (h.2 k hlt)
    · exact hq
    · exact absurd h.1 (hk.2 d hlt)
  · exact absurd (h.1.symm.trans (hall d)) (by simp)

/-- **When a directory that was taken comes back**: it is directory 0. -/
theorem create_then_free_iff (h : paging_create_new_page_directory p = some (d, q)) :
    unusedDirectories (paging_free_page_directory L q (L.dir d)).2 = unusedDirectories p ↔ d = 0 := by
  rcases create_new_page_directory_cases p with ⟨k, hk, hq⟩ | ⟨-, hnone⟩
  · obtain ⟨rfl, rfl⟩ := Prod.mk.inj (Option.some.inj (hq.symm.trans h))
    have htook : unusedDirectories (takeDirectory p k) + 1 = unusedDirectories p := by
      simp only [unusedDirectories, takeDirectory, not_update, Bool.not_true]
      exact trues_clear (by rw [hk.1]; rfl)
    by_cases hk0 : k = 0
    · subst hk0
      have hgave : unusedDirectories (clearedDirectory (takeDirectory p 0) 0) =
          unusedDirectories (takeDirectory p 0) + 1 := by
        simp only [unusedDirectories, clearedDirectory, not_update, Bool.not_false]
        exact trues_set (by simp [takeDirectory])
      rw [free_page_directory_zero, hgave, htook]
      exact iff_of_true rfl rfl
    · rw [free_page_directory_other fun h => hk0 (L.dir_injective h)]
      have hne : unusedDirectories (takeDirectory p k) ≠ unusedDirectories p := by omega
      exact iff_of_false hne hk0
  · rw [hnone] at h
    exact absurd h (by simp)

/-- **What `paging_free_page_directory` gives back**, for every pointer, and after a creation. -/
theorem release_iff (L : Linkage) (p : Paging) :
    (∀ a, Releases L p a ↔ a = L.dir 0 ∨
      ∃ k, a = L.dir k ∧ p.page_directory_used k = false ∧ ∀ j, p.page_directory_list k j = {}) ∧
    ∀ d q, paging_create_new_page_directory p = some (d, q) →
      (unusedDirectories (paging_free_page_directory L q (L.dir d)).2 = unusedDirectories p ↔ d = 0) :=
  ⟨fun _ => free_page_directory_releases_iff, fun _ _ => create_then_free_iff⟩

/-- At boot the first directory is taken and comes back. -/
theorem release_first : ∃ q, paging_create_new_page_directory (.initial someLinkage) = some (0, q) ∧
    unusedDirectories (paging_free_page_directory someLinkage q (someLinkage.dir 0)).2 =
      unusedDirectories (.initial someLinkage) := by
  have h : paging_create_new_page_directory (.initial someLinkage) =
      some (0, takeDirectory (.initial someLinkage) 0) :=
    create_new_page_directory_first ⟨rfl, fun i hi => absurd hi (Fin.not_lt_zero i)⟩
  exact ⟨_, h, ((release_iff someLinkage (.initial someLinkage)).2 0 _ h).mpr rfl⟩

/-- The second directory that is taken stays in use when it is given back, and the null pointer gives
true. -/
theorem second_directory_stays : ∃ p q, paging_create_new_page_directory p = some (1, q) ∧
    paging_free_page_directory someLinkage q (someLinkage.dir 1) = (true, q) ∧ q.page_directory_used 1 = true ∧
    ¬ Releases someLinkage q (someLinkage.dir 1) ∧ ¬ Releases someLinkage q 0 ∧
    unusedDirectories (paging_free_page_directory someLinkage q (someLinkage.dir 1)).2 ≠
      unusedDirectories p := by
  have hused : (takeDirectory (.initial someLinkage) 0).page_directory_used 1 = false := by
    simp [takeDirectory, Paging.initial]
  have h : paging_create_new_page_directory (takeDirectory (.initial someLinkage) 0) =
      some (1, takeDirectory (takeDirectory (.initial someLinkage) 0) 1) := by
    refine create_new_page_directory_first ⟨hused, fun i hi => ?_⟩
    obtain rfl : i = 0 := Fin.ext (Nat.lt_one_iff.mp (Fin.lt_def.mp hi))
    simp [takeDirectory]
  have hne : someLinkage.dir 1 ≠ someLinkage.dir 0 := fun h => absurd (someLinkage.dir_injective h) (by decide)
  have hnull : ∀ k, (0 : UInt32) ≠ someLinkage.dir k := Junk.ne_dir (.inl rfl) someLinkage
  refine ⟨_, _, h, free_page_directory_other hne, by simp [takeDirectory], fun hr => ?_, fun hr => ?_, ?_⟩
  · rcases free_page_directory_releases_iff.mp hr with h0 | ⟨k, hk, hclean, -⟩
    · exact hne h0
    · obtain rfl := someLinkage.dir_injective hk
      exact absurd hclean (by simp [takeDirectory])
  · rcases free_page_directory_releases_iff.mp hr with h0 | ⟨k, hk, -⟩
    · exact hnull 0 h0
    · exact hnull k hk
  · exact fun hback => absurd ((create_then_free_iff h).mp hback) (by decide)

end KeropOS
