import KeropOS.Proc.Invariant
import Mathlib.Data.Fintype.Card

/-!
# What processes take

A creation takes page frames, a page directory, a slot and a unit of `active_process_count`.
Destruction frees no page frame, and frees directory 0 only.

* `trues`: how many are taken; `freeFrames`, `unusedDirectories`, `liveSlots`;
* `Created.took_directory`, `Destroyed.directories`: what a step does to them;
* **`Destroyed.drops_iff`**: when a directory is given back.
-/

namespace KeropOS

open Transition

/-! ## Counting -/

/-- How many values are true. -/
def trues {n : ℕ} (f : Fin n → Bool) : ℕ := (Finset.univ.filter fun i => f i = true).card

section Counting

variable {n : ℕ} {f g : Fin n → Bool} {i : Fin n}

theorem trues_set (h : f i = false) : trues (Function.update f i true) = trues f + 1 := by
  have : (Finset.univ.filter fun j => Function.update f i true j = true) =
      insert i (Finset.univ.filter fun j => f j = true) := by
    ext j
    by_cases hj : j = i
    · simp [hj]
    · simp [hj]
  rw [trues, this, Finset.card_insert_of_notMem (by simp [h]), trues]

theorem trues_clear (h : f i = true) : trues (Function.update f i false) + 1 = trues f := by
  rw [← trues_set (Function.update_self i false f), Function.update_idem, ← h, Function.update_eq_self]

theorem trues_le (h : ∀ i, f i = true → g i = true) : trues f ≤ trues g :=
  Finset.card_le_card fun i hi => by
    rw [Finset.mem_filter] at hi ⊢
    exact ⟨hi.1, h i hi.2⟩

theorem trues_le_size (f : Fin n → Bool) : trues f ≤ n := by
  have := Finset.card_le_univ (Finset.univ.filter fun i => f i = true)
  rwa [Fintype.card_fin] at this

theorem not_update (f : Fin n → Bool) (i : Fin n) (b : Bool) :
    (fun j => !Function.update f i b j) = Function.update (fun j => !f j) i !b := by
  funext j
  by_cases hj : j = i
  · simp [hj]
  · simp [hj]

end Counting

def freeFrames (p : Paging) : ℕ := trues fun f => !p.page_frame_map f

def unusedDirectories (p : Paging) : ℕ := trues fun d => !p.page_directory_used d

def liveSlots (s : Kernel) : ℕ := trues s.list_of_process

/-- A free slot that becomes live is one slot more. -/
theorem liveSlots_set {s s' : Kernel} {p : Fin 16} (hp : s.list_of_process p = false)
    (hlist : s'.list_of_process = Function.update s.list_of_process p true) :
    liveSlots s' = liveSlots s + 1 := by
  unfold liveSlots
  rw [hlist]
  exact trues_set hp

/-- A live slot that is freed is one slot less. -/
theorem liveSlots_clear {s s' : Kernel} {p : Fin 16} (hp : s.list_of_process p = true)
    (hlist : s'.list_of_process = Function.update s.list_of_process p false) :
    liveSlots s' + 1 = liveSlots s := by
  unfold liveSlots
  rw [hlist]
  exact trues_clear hp

/-! ## Frames -/

theorem allocate_free {p : Paging} (h0 : p.page_frame_map 0 = true) (h : ∃ f, p.page_frame_map f = false)
    (d : Fin 32) (virtual_addr : UInt32) :
    freeFrames (paging_allocate_user_page_frame p d virtual_addr).2 + 1 = freeFrames p := by
  rcases allocate_cases p d virtual_addr with ⟨f, -, hf, he⟩ | ⟨hall, -⟩
  · rw [he]
    simp only [freeFrames, mapped, not_update, Bool.not_true]
    exact trues_clear (by rw [hf]; rfl)
  · obtain ⟨f, hf⟩ := h
    have : f ≠ 0 := by
      rintro rfl
      rw [h0] at hf
      exact absurd hf (by simp)
    rw [hall f this] at hf
    exact absurd hf (by simp)

section

variable {L : Linkage} {s s' : Kernel} {r : ProcessRequest} {p i : Fin 16} {d : Fin 32}

theorem Created.took_directory (h : Created L s s' r p d) (hs : KInv L s) :
    unusedDirectories s'.paging + 1 = unusedDirectories s.paging := by
  rw [unusedDirectories, h.used hs, not_update, unusedDirectories]
  exact trues_clear (by rw [h.dir.1]; rfl)

/-! ## Destruction -/

theorem Destroyed.frames (h : Destroyed L s s' p i) : s'.paging.page_frame_map = s.paging.page_frame_map ∧
    s'.paging.free_page_frame_count = s.paging.free_page_frame_count := by
  rw [h.paging]
  split_ifs <;> exact ⟨rfl, rfl⟩

/-- Directory 0 is in use when it is given back. -/
theorem Destroyed.directories (h : Destroyed L s s' p i) (hs : KInv L s) :
    unusedDirectories s'.paging = unusedDirectories s.paging + if L.dir 0 = s.dirOf i then 1 else 0 := by
  rw [h.paging]
  split_ifs with hd
  · have hused : s.paging.page_directory_used 0 = true := by
      rcases hu : s.paging.page_directory_used 0 with _ | _
      · have hlive := h.live
        rw [(h.dir_zero hs hd.symm).2, hs.slot_zero hu] at hlive
        exact absurd hlive (by simp)
      · rfl
    simp only [unusedDirectories, dropDirectory, not_update]
    exact trues_set (by rw [hused]; rfl)
  · rfl

/-- **When destruction gives a directory back**: it is directory 0, of slot 0, and the control block found is
that of slot 0. -/
theorem Destroyed.drops_iff (h : Destroyed L s s' p i) (hs : KInv L s) :
    L.dir 0 = s.dirOf i ↔ p = 0 ∧ s.dirOf 0 = L.dir 0 ∧ ∀ j ≠ 0, (s.process_list j).pid ≠ 0 := by
  have h0 : UInt32.ofNat (0 : Fin 16).val = 0 := rfl
  constructor
  · intro hd
    obtain ⟨rfl, rfl⟩ := h.dir_zero hs hd.symm
    refine ⟨rfl, hd.symm, fun j hj => ?_⟩
    have := h.found.2 j (Fin.pos_of_ne_zero hj)
    rwa [h0] at this
  · rintro ⟨rfl, hdir, hpid⟩
    have hi : i = 0 := by
      by_contra hi
      exact hpid i hi h.found.1
    rw [hi, hdir]

end

end KeropOS
