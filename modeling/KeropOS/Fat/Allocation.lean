import KeropOS.Fat.Calls
import Mathlib.Data.Fintype.Card

/-!
# The search for empty cells

`write` looks for empty cells in one loop for a folder and in another for a file; the one reads a cell
before it compares the index with the bound.

* `folder_search`, `file_search`: the two loops with the indices they read, **`folder_search_fst`**,
  **`file_search_fst`**: the loops of `write`;
* `folder_search_reads`, `file_search_reads`: the indices; `allocation_found`: the cells that are found;
* `emptyCount`: the empty cells of a table;
* `AllocatesExactly`; **`write_allocates_iff`**: when the allocation of `write` is exact and in bounds.
-/

namespace KeropOS

open Packed Linked

variable {s s' : Fs} {r : FAT32DriverRequest}

/-! ## The loops with the indices they read -/

/-- The search loop of a folder write, from cell `i`, and the indices of `cluster_map` it reads. -/
def folder_search (st : FAT32DriverState) : (fuel i : ℕ) → ℕ × List ℕ
  | 0, i => (i, [])
  | fuel + 1, i =>
    if cluster_map_word st i ≠ FAT32_FAT_EMPTY_ENTRY ∧ i < 512 then
      ((folder_search st fuel (i + 1)).1, i :: (folder_search st fuel (i + 1)).2)
    else (i, [i])

/-- The search loop of a file write, from cell `k`, and the indices of `cluster_map` it reads. -/
def file_search (m : ClusterMap) (n_cluster : ℕ) : (fuel k : ℕ) → (cluster_empty : List ℕ) → List ℕ × List ℕ
  | 0, _, cluster_empty => (cluster_empty, [])
  | fuel + 1, k, cluster_empty =>
    if cluster_empty.length < n_cluster ∧ k < 512 then
      if cell m k = FAT32_FAT_EMPTY_ENTRY then
        ((file_search m n_cluster fuel (k + 1) (cluster_empty ++ [k])).1,
          k :: (file_search m n_cluster fuel (k + 1) (cluster_empty ++ [k])).2)
      else ((file_search m n_cluster fuel (k + 1) cluster_empty).1,
        k :: (file_search m n_cluster fuel (k + 1) cluster_empty).2)
    else (cluster_empty, [])

/-- **The loop of a folder write.** -/
theorem folder_search_fst (st : FAT32DriverState) (fuel i : ℕ) :
    (folder_search st fuel i).1 = find_folder_cell st fuel i := by
  induction fuel generalizing i with
  | zero => rfl
  | succ fuel ih =>
    rw [folder_search, find_folder_cell]
    split_ifs
    · exact ih (i + 1)
    · rfl

/-- **The loop of a file write.** -/
theorem file_search_fst (m : ClusterMap) (n fuel k : ℕ) (ce : List ℕ) :
    (file_search m n fuel k ce).1 = find_file_cells m n fuel k ce := by
  induction fuel generalizing k ce with
  | zero => rfl
  | succ fuel ih =>
    rw [file_search, find_file_cells]
    split_ifs
    · exact ih (k + 1) _
    · exact ih (k + 1) _
    · rfl

/-- The file search compares the index with the bound first. -/
theorem file_search_reads (m : ClusterMap) (n fuel k : ℕ) (ce : List ℕ) :
    ∀ c ∈ (file_search m n fuel k ce).2, k ≤ c ∧ c < 512 := by
  induction fuel generalizing k ce with
  | zero => simp [file_search]
  | succ fuel ih =>
    intro c hc
    have hcons : ∀ ce', k < 512 → c ∈ k :: (file_search m n fuel (k + 1) ce').2 → k ≤ c ∧ c < 512 := by
      intro ce' hk hc
      rcases List.mem_cons.mp hc with rfl | hc
      · exact ⟨le_rfl, hk⟩
      · have := ih (k + 1) ce' c hc
        omega
    rw [file_search] at hc
    split_ifs at hc with h
    · exact hcons _ h.2 hc
    · exact hcons _ h.2 hc
    · exact absurd hc (by simp)

theorem le_folder_search (st : FAT32DriverState) (fuel i : ℕ) : i ≤ (folder_search st fuel i).1 := by
  induction fuel generalizing i with
  | zero => exact le_rfl
  | succ fuel ih =>
    rw [folder_search]
    split_ifs
    · exact (Nat.le_succ i).trans (ih (i + 1))
    · exact le_rfl

/-- The folder search reads no cell after the one it stops at. -/
theorem folder_search_reads (st : FAT32DriverState) (fuel i : ℕ) :
    ∀ c ∈ (folder_search st fuel i).2, i ≤ c ∧ c ≤ (folder_search st fuel i).1 := by
  induction fuel generalizing i with
  | zero => simp [folder_search]
  | succ fuel ih =>
    intro c hc
    rw [folder_search] at hc ⊢
    split_ifs at hc ⊢ with h
    · rcases List.mem_cons.mp hc with rfl | hc
      · exact ⟨le_rfl, (Nat.le_succ c).trans (le_folder_search st fuel (c + 1))⟩
      · have := ih (i + 1) c hc
        exact ⟨by omega, this.2⟩
    · have := List.mem_singleton.mp hc
      exact ⟨this.ge, this.le⟩

/-- **The folder search reads the cell it stops at**, before it compares the index. -/
theorem folder_search_reads_last (st : FAT32DriverState) (fuel i : ℕ) (h : fuel + i = 513) (hi : i ≤ 512) :
    (folder_search st fuel i).1 ∈ (folder_search st fuel i).2 := by
  induction fuel generalizing i with
  | zero => omega
  | succ fuel ih =>
    rw [folder_search]
    split_ifs with hc
    · exact List.mem_cons_of_mem _ (ih (i + 1) (by omega) (by omega))
    · exact List.mem_singleton_self i

/-- The indices that the search of a `write` reads. -/
def allocation_reads (s : Fs) (r : FAT32DriverRequest) : List ℕ :=
  if r.buffer_size = 0 then (folder_search s.driver_state 511 2).2
  else (file_search s.cluster_map (n_cluster r.buffer_size) 510 2 []).2

/-- The cells that the search of a `write` finds. -/
def allocation_found (s : Fs) (r : FAT32DriverRequest) : List ℕ :=
  if r.buffer_size = 0 then [(folder_search s.driver_state 511 2).1]
  else (file_search s.cluster_map (n_cluster r.buffer_size) 510 2 []).1

/-- **When the search stays in the table**: it is that of a file, or a cell is empty. -/
theorem allocation_reads_iff (s : Fs) (r : FAT32DriverRequest) :
    (∀ c ∈ allocation_reads s r, 2 ≤ c ∧ c < 512) ↔ r.buffer_size ≠ 0 ∨ emptyCells s.cluster_map ≠ [] := by
  unfold allocation_reads
  by_cases hsize : r.buffer_size = 0
  · simp only [hsize, if_true, ne_eq, not_true_eq_false, false_or]
    have hstop : (folder_search s.driver_state 511 2).1 = (emptyCells s.cluster_map).headD 512 := by
      rw [folder_search_fst, find_folder_cell_eq]
    constructor
    · intro h hnone
      have := (h _ (folder_search_reads_last s.driver_state 511 2 rfl (by omega))).2
      rw [hstop, hnone, List.headD_nil] at this
      omega
    · intro h c hc
      obtain ⟨k, l, hl⟩ := List.exists_cons_of_ne_nil h
      have hk := mem_emptyCells.mp (hl ▸ List.mem_cons_self : k ∈ emptyCells s.cluster_map)
      have hb := folder_search_reads s.driver_state 511 2 c hc
      rw [hstop, hl, List.headD_cons] at hb
      omega
  · simp only [hsize, if_false, ne_eq, not_false_eq_true, true_or, iff_true]
    exact file_search_reads s.cluster_map _ 510 2 []

/-! ## The empty cells of a table -/

/-- The number of empty cells of a table. -/
def emptyCount (m : ClusterMap) : ℕ := (Finset.univ.filter fun c : Fin 512 => m c = FAT32_FAT_EMPTY_ENTRY).card

/-- Where the cells 0 and 1 are not empty, the search loops look through all the empty cells. -/
theorem length_emptyCells {m : ClusterMap} (h : ∀ c, c < 2 → cell m c ≠ FAT32_FAT_EMPTY_ENTRY) :
    (emptyCells m).length = emptyCount m := by
  rw [← List.toFinset_card_of_nodup (nodup_emptyCells m), emptyCount,
    ← Finset.card_map (Fin.valEmbedding : Fin 512 ↪ ℕ)]
  refine congrArg Finset.card (Finset.ext fun c => ?_)
  simp only [List.mem_toFinset, mem_emptyCells, Finset.mem_map, Finset.mem_filter, Finset.mem_univ, true_and,
    Fin.valEmbedding_apply]
  constructor
  · rintro ⟨⟨-, hc⟩, h0⟩
    rw [cell_of_lt m hc] at h0
    exact ⟨⟨c, hc⟩, h0, rfl⟩
  · rintro ⟨k, hk, rfl⟩
    rw [← cell_of_lt m k.isLt] at hk
    exact ⟨⟨by_contra fun hlt => h k (by omega) hk, k.isLt⟩, hk⟩

/-! ## Exact allocation -/

/-- The allocation of `write` reads the cells 2 to 511 only; it succeeds when there are empty cells enough;
and then the cells it needs, those that it found, were empty, are not empty, and no other cell changes. -/
structure AllocatesExactly (newDir : FAT32DirectoryTable) (s : Fs) (r : FAT32DriverRequest) : Prop where
  reads : ∀ c ∈ allocation_reads s r, 2 ≤ c ∧ c < 512
  succeeds : (∃ s', write newDir s r = .ok (0, s')) ↔ cellsNeeded r.buffer_size ≤ emptyCount s.cluster_map
  cells : ∀ s', write newDir s r = .ok (0, s') → ∃ cs : List ℕ, cs = allocation_found s r ∧ cs.Nodup ∧
    cs.length = cellsNeeded r.buffer_size ∧
    (∀ c ∈ cs, (2 ≤ c ∧ c < 512) ∧ cell s.cluster_map c = FAT32_FAT_EMPTY_ENTRY ∧
      cell s'.cluster_map c ≠ FAT32_FAT_EMPTY_ENTRY) ∧
    ∀ c, c ∉ cs → cell s'.cluster_map c = cell s.cluster_map c

/-- The cells of an allocation. -/
theorem Allocated.exact_cells {P : ℕ} {n : Fin 64} {e : FAT32DirectoryEntry} {cs : List ℕ} {data : ℕ → Cluster}
    (h : Allocated s s' P n e cs data) (h2 : cell s.cluster_map 2 ≠ FAT32_FAT_EMPTY_ENTRY) :
    (∀ c ∈ cs, (2 ≤ c ∧ c < 512) ∧ cell s.cluster_map c = FAT32_FAT_EMPTY_ENTRY ∧
      cell s'.cluster_map c ≠ FAT32_FAT_EMPTY_ENTRY) ∧
    ∀ c, c ∉ cs → cell s'.cluster_map c = cell s.cluster_map c := by
  have hpos : ∀ c ∈ cs, 3 ≤ c := by
    intro c hc
    have hfresh := h.fresh c hc
    have : c ≠ 2 := by
      rintro rfl
      exact h2 hfresh.2
    omega
  refine ⟨fun c hc => ⟨(h.fresh c hc).1, (h.fresh c hc).2, h.chain.cell_ne_zero hpos hc⟩, fun c hc => ?_⟩
  rw [h.map, cell_linkCells_of_notMem hc]

/-- **When the allocation is exact and in bounds**: the request is one for a file, or a cell is empty. -/
theorem write_allocates_iff (newDir : FAT32DirectoryTable) (s : Fs) (r : FAT32DriverRequest)
    (hcells : ∀ c, c ≤ 2 → cell s.cluster_map c ≠ FAT32_FAT_EMPTY_ENTRY)
    (hparent : 2 ≤ r.parent_cluster_number.toNat) (hslot : ∃ n, ¬ (parentTable s r n).InUse)
    (hname : r.name ≠ 0) (hfresh : FreshName (parentTable s r) r.name)
    (hsize : r.buffer_size = 0 ∨ SizeOk r.buffer_size) :
    AllocatesExactly newDir s r ↔ r.buffer_size ≠ 0 ∨ 0 < emptyCount s.cluster_map := by
  have hcount := length_emptyCells fun c hc => hcells c (by omega)
  have hreads : (∀ c ∈ allocation_reads s r, 2 ≤ c ∧ c < 512) ↔
      r.buffer_size ≠ 0 ∨ 0 < emptyCount s.cluster_map := by
    rw [allocation_reads_iff, ← hcount, List.length_pos_iff]
  refine ⟨fun h => hreads.mp h.reads, fun h => ⟨hreads.mpr h, ?_, fun s' hw => ?_⟩⟩
  · rw [← hcount]
    constructor
    · rintro ⟨s', hw⟩
      rcases write_cases hw with ⟨hr, -⟩ | ⟨-, h0, n, i, hf⟩ | ⟨-, hok, n, cs, data, hf⟩
      · exact absurd rfl hr.code_ne_zero
      · rw [cellsNeeded, if_pos h0]
        exact List.length_pos_of_mem (mem_emptyCells.mpr (hf.alloc.fresh i (by simp)))
      · rw [cellsNeeded, if_neg hok.ne_zero, ← hf.length]
        exact (hf.alloc.nodup.subperm fun c hc => mem_emptyCells.mpr (hf.alloc.fresh c hc)).length_le
    · exact write_ok newDir hname hparent hfresh hslot hsize
  · rcases write_cases hw with ⟨hr, -⟩ | ⟨-, h0, n, i, hf⟩ | ⟨-, hok, n, cs, data, hf⟩
    · exact absurd rfl hr.code_ne_zero
    · refine ⟨[i], ?_, hf.alloc.nodup, by rw [cellsNeeded, if_pos h0]; rfl,
        hf.alloc.exact_cells (hcells 2 le_rfl)⟩
      rw [allocation_found, if_pos h0, folder_search_fst, find_folder_cell_eq, hf.found]
    · refine ⟨cs, ?_, hf.alloc.nodup, by rw [cellsNeeded, if_neg hok.ne_zero, hf.length],
        hf.alloc.exact_cells (hcells 2 le_rfl)⟩
      rw [allocation_found, if_neg hok.ne_zero, file_search_fst, find_file_cells_eq, hf.found]

/-- The first file. -/
theorem write_allocates_first : AllocatesExactly 0 (boot 0) firstFile := by
  have hname : firstFile.name ≠ 0 := fun h => absurd (congrFun h 0) (by decide)
  refine (write_allocates_iff 0 (boot 0) firstFile (fun c hc => ?_) (by decide) (boot_free_slot 0) hname
    (boot_freshName 0 hname) (.inr ⟨by decide, by decide⟩)).mpr (.inl (by decide))
  have hc : c = 0 ∨ c = 1 ∨ c = 2 := by omega
  rcases hc with rfl | rfl | rfl
  · decide
  · decide
  · decide

/-- A new file system, with a cached table that has no empty cell. -/
def fullState : Fs := { boot 0 with driver_state.cluster_map := fun _ => FAT32_FAT_END_OF_FILE }

theorem tableAt_fullState (c : ℕ) : tableAt fullState c = tableAt (boot 0) c := by
  simp only [tableAt, fullState]

/-- A folder in it: the search reads the word behind the table. -/
theorem write_folder_reads_past_end : (∀ c, c ≤ 2 → cell fullState.cluster_map c ≠ FAT32_FAT_EMPTY_ENTRY) ∧
    2 ≤ (small 2 97 0).parent_cluster_number.toNat ∧ (∃ n, ¬ (parentTable fullState (small 2 97 0) n).InUse) ∧
    (small 2 97 0).name ≠ 0 ∧ FreshName (parentTable fullState (small 2 97 0)) (small 2 97 0).name ∧
    512 ∈ allocation_reads fullState (small 2 97 0) ∧ ¬ AllocatesExactly 0 fullState (small 2 97 0) := by
  have hcell : ∀ c, c < 512 → cell fullState.cluster_map c ≠ FAT32_FAT_EMPTY_ENTRY := by
    intro c hc
    rw [cell_of_lt _ hc]
    exact (by decide : FAT32_FAT_END_OF_FILE ≠ FAT32_FAT_EMPTY_ENTRY)
  have hnone : emptyCells fullState.cluster_map = [] :=
    List.eq_nil_iff_forall_not_mem.mpr fun c hc => hcell c (mem_emptyCells.mp hc).1.2 (mem_emptyCells.mp hc).2
  have hread : 512 ∈ allocation_reads fullState (small 2 97 0) := by
    have hlast := folder_search_reads_last fullState.driver_state 511 2 rfl (by omega)
    rw [folder_search_fst, find_folder_cell_eq] at hlast
    rw [show fullState.driver_state.cluster_map = fullState.cluster_map from rfl, hnone] at hlast
    unfold allocation_reads
    rw [if_pos (show (small 2 97 0).buffer_size = 0 from rfl)]
    exact hlast
  have htable : parentTable fullState (small 2 97 0) = tableAt (boot 0) 2 := by
    rw [parentTable, show clusterIndex (small 2 97 0).parent_cluster_number = 2 from rfl,
      tableAt_fullState]
  rw [htable]
  exact ⟨fun c hc => hcell c (by omega), by decide, boot_free_slot 0, small_name_ne_zero (by decide),
    boot_freshName 0 (small_name_ne_zero (by decide)), hread, fun h => absurd (h.reads 512 hread).2 (by omega)⟩

end KeropOS
