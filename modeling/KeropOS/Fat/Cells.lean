import KeropOS.Fat.Driver
import KeropOS.Lib.Linked

/-!
# The loops over the cached table

* `next`, `FatChain`: the cluster chains of a table;
* `emptyCells`: the cells both search loops look through (`find_file_cells_eq`,
  `find_folder_cell_eq`);
* **`store_clusters_spec`**: the store loop links its cells into one chain and fills their clusters;
* **`free_chain_spec`**: the freeing loop empties exactly the cells of the chain it follows;
* **`read_chain_spec`**: the reading loop copies a prefix of the chain.
-/

namespace KeropOS

open Packed Linked

/-! ## Cells -/

theorem cell_of_lt (m : ClusterMap) {c : ℕ} (h : c < 512) : cell m c = m ⟨c, h⟩ := dif_pos h

theorem cell_of_ge (m : ClusterMap) {c : ℕ} (h : 512 ≤ c) : cell m c = 0 := dif_neg (by omega)

theorem cell_setCell (m : ClusterMap) (c k : ℕ) (v : UInt32) :
    cell (setCell m c v) k = if k = c ∧ k < 512 then v else cell m k := by
  by_cases hk : k < 512
  · simp only [cell_of_lt _ hk, setCell, hk, and_true]
  · simp only [cell_of_ge _ (Nat.le_of_not_lt hk), hk, and_false, if_false]

theorem cell_setCell_self (m : ClusterMap) {c : ℕ} (h : c < 512) (v : UInt32) :
    cell (setCell m c v) c = v := by
  rw [cell_setCell, if_pos ⟨rfl, h⟩]

theorem cell_setCell_ne (m : ClusterMap) {c k : ℕ} (h : k ≠ c) (v : UInt32) :
    cell (setCell m c v) k = cell m k := by
  rw [cell_setCell, if_neg fun e => h e.1]

theorem clusterMap_ext {m m' : ClusterMap} (h : ∀ k, cell m k = cell m' k) : m = m' := by
  funext i
  have := h i
  rwa [cell_of_lt _ i.isLt, cell_of_lt _ i.isLt] at this

theorem toNat_ofNat_of_lt {c : ℕ} (h : c < 512) : (UInt32.ofNat c).toNat = c :=
  UInt32.toNat_ofNat_of_lt' (h.trans (by decide))

theorem clusterIndex_ofNat {c : ℕ} (h : c < 512) : clusterIndex (UInt32.ofNat c) = c := by
  rw [clusterIndex_of_lt (by rw [toNat_ofNat_of_lt h]; exact h), toNat_ofNat_of_lt h]

/-! ## Chains -/

/-- The cell after `c`, or `none` at the end of a file. -/
def next (m : ClusterMap) (c : ℕ) : Option ℕ :=
  if cell m c = FAT32_FAT_END_OF_FILE then none else some (cell m c).toNat

/-- The chain from cluster `c` in table `m`. -/
abbrev FatChain (m : ClusterMap) (c : ℕ) (l : List ℕ) : Prop := ChainFrom (next m) c l

theorem next_of_cell_eq {m m' : ClusterMap} {c : ℕ} (h : cell m c = cell m' c) :
    next m c = next m' c := by
  simp only [next, h]

theorem eof_toNat : FAT32_FAT_END_OF_FILE.toNat = 268435455 := rfl

theorem ne_eof_of_lt {v : UInt32} (h : v.toNat < 512) : v ≠ FAT32_FAT_END_OF_FILE := by
  rintro rfl
  rw [eof_toNat] at h
  omega

theorem next_eq_none {m : ClusterMap} {c : ℕ} : next m c = none ↔ cell m c = FAT32_FAT_END_OF_FILE := by
  simp [next]

theorem next_eq_some {m : ClusterMap} {c k : ℕ} (h : next m c = some k) : (cell m c).toNat = k := by
  unfold next at h
  split_ifs at h
  exact Option.some.inj h

theorem ne_eof_of_next {m : ClusterMap} {c k : ℕ} (h : next m c = some k) :
    cell m c ≠ FAT32_FAT_END_OF_FILE := by
  intro he
  rw [next_eq_none.mpr he] at h
  exact absurd h (by simp)

theorem next_of_ofNat {m : ClusterMap} {c k : ℕ} (hk : k < 512) (h : cell m c = UInt32.ofNat k) :
    next m c = some k := by
  have hne : UInt32.ofNat k ≠ FAT32_FAT_END_OF_FILE :=
    ne_eof_of_lt (by rw [toNat_ofNat_of_lt hk]; exact hk)
  simp only [next, h, if_neg hne, toNat_ofNat_of_lt hk]

/-- A cell of a chain is not empty: it ends the chain or names a cluster of it. -/
theorem FatChain.cell_ne_zero {m : ClusterMap} {c x : ℕ} {l : List ℕ} (h : FatChain m c l)
    (hpos : ∀ y ∈ l, 3 ≤ y) (hx : x ∈ l) : cell m x ≠ 0 := by
  intro h0
  have hn : next m x = some 0 := by
    simp only [next, h0]
    rfl
  have := hpos 0 (h.next_mem hx hn)
  omega

/-- A chain has at most as many clusters as the table has cells. -/
theorem FatChain.length_le {m : ClusterMap} {c : ℕ} {l : List ℕ} (h : FatChain m c l)
    (hlt : ∀ k ∈ l, k < 512) : l.length ≤ 512 := by
  have hsub : l.Subperm (List.range 512) := h.nodup.subperm fun k hk => List.mem_range.mpr (hlt k hk)
  have := hsub.length_le
  rwa [List.length_range] at this

/-! ## The search loops -/

/-- The empty cells of a table, in order. -/
def emptyCells (m : ClusterMap) : List ℕ :=
  (List.range' 2 510).filter fun k => cell m k = FAT32_FAT_EMPTY_ENTRY

theorem mem_emptyCells {m : ClusterMap} {k : ℕ} :
    k ∈ emptyCells m ↔ (2 ≤ k ∧ k < 512) ∧ cell m k = 0 := by
  rw [emptyCells, List.mem_filter, List.mem_range'_1, decide_eq_true_eq]
  rfl

theorem nodup_emptyCells (m : ClusterMap) : (emptyCells m).Nodup :=
  (List.nodup_range' : (List.range' 2 510).Nodup).filter _

theorem find_file_cells_from (m : ClusterMap) (n : ℕ) : ∀ (fuel k : ℕ) (ce : List ℕ), fuel + k = 512 →
    find_file_cells m n fuel k ce = ce ++
      ((List.range' k fuel).filter fun k => cell m k = FAT32_FAT_EMPTY_ENTRY).take (n - ce.length)
  | 0, k, ce, _ => by simp [find_file_cells]
  | fuel + 1, k, ce, h => by
    rw [find_file_cells, List.range'_succ, List.filter_cons]
    by_cases hlen : ce.length < n
    · rw [if_pos ⟨hlen, by omega⟩]
      by_cases hc : cell m k = FAT32_FAT_EMPTY_ENTRY
      · rw [if_pos hc, if_pos (by simpa using hc), find_file_cells_from m n fuel (k + 1) _ (by omega)]
        obtain ⟨j, hj⟩ : ∃ j, n - ce.length = j + 1 := ⟨n - ce.length - 1, by omega⟩
        rw [hj, List.take_succ_cons, List.append_assoc, List.singleton_append, List.length_append,
          List.length_singleton, show n - (ce.length + 1) = j by omega]
      · rw [if_neg hc, if_neg (by simpa using hc), find_file_cells_from m n fuel (k + 1) _ (by omega)]
    · rw [if_neg (by omega), show n - ce.length = 0 by omega, List.take_zero, List.append_nil]

/-- **The search of a file write** collects the first `n` empty cells. -/
theorem find_file_cells_eq (m : ClusterMap) (n : ℕ) :
    find_file_cells m n 510 2 [] = (emptyCells m).take n := by
  rw [find_file_cells_from m n 510 2 [] rfl, List.nil_append]
  rfl

theorem find_folder_cell_from (st : FAT32DriverState) : ∀ (fuel i : ℕ), fuel + i = 513 → i ≤ 512 →
    find_folder_cell st fuel i =
      ((List.range' i (512 - i)).filter fun k => cell st.cluster_map k = FAT32_FAT_EMPTY_ENTRY).headD 512
  | 0, i, h, hi => by omega
  | fuel + 1, i, h, hi => by
    rw [find_folder_cell]
    by_cases hlt : i < 512
    · obtain ⟨j, hj⟩ : ∃ j, 512 - i = j + 1 := ⟨512 - i - 1, by omega⟩
      rw [hj, List.range'_succ, List.filter_cons, cluster_map_word, if_pos hlt]
      by_cases hc : cell st.cluster_map i = FAT32_FAT_EMPTY_ENTRY
      · rw [if_neg fun e => e.1 hc, if_pos (by simpa using hc), List.headD_cons]
      · rw [if_pos ⟨hc, hlt⟩, if_neg (by simpa using hc),
          find_folder_cell_from st fuel (i + 1) (by omega) (by omega), show 512 - (i + 1) = j by omega]
    · rw [if_neg fun e => hlt e.2, show 512 - i = 0 by omega]
      simp; omega

/-- **The search of a folder write** finds the first empty cell, or stops at 512. -/
theorem find_folder_cell_eq (st : FAT32DriverState) :
    find_folder_cell st 511 2 = (emptyCells st.cluster_map).headD 512 :=
  find_folder_cell_from st 511 2 rfl (by omega)

/-! ## The store loop -/

/-- The table with the cells `cs` linked into one chain. -/
def linkCells (m : ClusterMap) : List ℕ → ClusterMap
  | [] => m
  | [c] => setCell m c FAT32_FAT_END_OF_FILE
  | c :: c' :: cs => linkCells (setCell m c (UInt32.ofNat c')) (c' :: cs)

theorem cell_linkCells_of_notMem : ∀ {cs : List ℕ} {m : ClusterMap} {k : ℕ}, k ∉ cs →
    cell (linkCells m cs) k = cell m k
  | [], _, _, _ => rfl
  | [c], m, k, h => cell_setCell_ne m (by simpa using h) _
  | c :: c' :: cs, m, k, h => by
    have h' : k ≠ c ∧ k ∉ c' :: cs := by simpa only [List.mem_cons, not_or] using h
    rw [linkCells, cell_linkCells_of_notMem h'.2, cell_setCell_ne _ h'.1]

/-- **Linking a list of cells makes it a chain.** -/
theorem fatChain_linkCells : ∀ {c : ℕ} {cs : List ℕ} {m : ClusterMap}, (c :: cs).Nodup →
    (∀ k ∈ c :: cs, k < 512) → FatChain (linkCells m (c :: cs)) c (c :: cs)
  | c, [], m, _, hlt => .last (by
      rw [next_eq_none, linkCells, cell_setCell_self _ (hlt c (by simp))])
  | c, c' :: cs, m, hnd, hlt => by
    have hc : c ∉ c' :: cs := (List.nodup_cons.mp hnd).1
    refine .link (next_of_ofNat (hlt c' (by simp)) ?_)
      (fatChain_linkCells (List.nodup_cons.mp hnd).2 fun k hk => hlt k (List.mem_cons_of_mem _ hk))
    rw [linkCells, cell_linkCells_of_notMem hc, cell_setCell_self _ (hlt c (by simp))]

/-- What the store loop does: the chain is linked, cluster `j` of it gets chunk `i + j`, and
nothing else changes. -/
structure Stored (buf : Buffer) (cs : List ℕ) (i size : ℕ) (s s' : Fs) : Prop where
  map : s'.cluster_map = linkCells s.cluster_map cs
  filled : ∀ j (h : j < cs.length),
    clusterAt s'.disk cs[j] = chunk buf ((i + j) * 2048) (min 2048 (size - j * 2048))
  frame : ∀ k ∉ cs, clusterAt s'.disk k = clusterAt s.disk k
  dir_table_buf : s'.driver_state.dir_table_buf = s.driver_state.dir_table_buf

theorem stored_last (buf : Buffer) {c i size : ℕ} {s s' : Fs} (hc : c < 512)
    (h : store_clusters buf [c] i size s = .ok s') : Stored buf [c] i size s s' := by
  rw [store_clusters] at h
  split_ifs at h with hs
  obtain rfl := Except.ok.inj h
  refine ⟨rfl, fun j hj => ?_, fun k hk => ?_, rfl⟩
  · obtain rfl : j = 0 := by simpa using hj
    simp only [List.getElem_cons_zero, clusterAt_write_clusters, clusterIndex_ofNat hc, if_true,
      Nat.add_zero, Nat.zero_mul, Nat.sub_zero, Nat.min_eq_right hs]
  · rw [clusterAt_write_clusters, clusterIndex_ofNat hc, if_neg (by simpa using hk)]

theorem store_clusters_spec (buf : Buffer) {cs : List ℕ} {i size : ℕ} {s s' : Fs} (hnd : cs.Nodup)
    (hlt : ∀ k ∈ cs, k < 512) (hsize : cs.length * 2048 < size + 2048)
    (h : store_clusters buf cs i size s = .ok s') : Stored buf cs i size s s' := by
  induction cs generalizing i size s with
  | nil => simp [store_clusters] at h
  | cons c cs ih =>
    have hc : c < 512 := hlt c (by simp)
    cases cs with
    | nil => exact stored_last buf hc h
    | cons c' cs =>
      obtain ⟨hmem, hnd'⟩ := List.nodup_cons.mp hnd
      have hsize' : (c' :: cs).length * 2048 < size - 2048 + 2048 ∧ 2048 ≤ size := by
        simp only [List.length_cons] at hsize ⊢; omega
      rw [store_clusters] at h
      have ih := ih hnd' (fun k hk => hlt k (List.mem_cons_of_mem _ hk)) hsize'.1 h
      refine ⟨ih.map, fun j hj => ?_, fun k hk => ?_, ih.dir_table_buf⟩
      · cases j with
        | zero =>
          rw [List.getElem_cons_zero, ih.frame c hmem, clusterAt_write_clusters,
            clusterIndex_ofNat hc, if_pos rfl, Nat.add_zero, Nat.zero_mul, Nat.sub_zero,
            Nat.min_eq_left hsize'.2]
        | succ j =>
          rw [List.getElem_cons_succ, ih.filled j (by simpa using hj),
            show i + 1 + j = i + (j + 1) by omega,
            show size - 2048 - j * 2048 = size - (j + 1) * 2048 by omega]
      · obtain ⟨hkc, hkcs⟩ : k ≠ c ∧ k ∉ c' :: cs := by simpa only [List.mem_cons, not_or] using hk
        rw [ih.frame k hkcs, clusterAt_write_clusters, clusterIndex_ofNat hc, if_neg hkc]

/-- The store loop returns when the bytes fit into the cells. -/
theorem store_clusters_ok (buf : Buffer) {c : ℕ} {cs : List ℕ} {i size : ℕ} (s : Fs)
    (hsize : size ≤ (c :: cs).length * 2048) : ∃ s', store_clusters buf (c :: cs) i size s = .ok s' := by
  induction cs generalizing c i size s with
  | nil =>
    rw [store_clusters, if_pos (by simpa using hsize)]
    exact ⟨_, rfl⟩
  | cons c' cs ih =>
    rw [store_clusters]
    exact ih _ (by simp only [List.length_cons] at hsize ⊢; omega)

/-- The store loop returns only when the bytes fit into the cells. -/
theorem store_clusters_fits {buf : Buffer} {cs : List ℕ} {i size : ℕ} {s s' : Fs}
    (h : store_clusters buf cs i size s = .ok s') : cs ≠ [] ∧ size ≤ cs.length * 2048 := by
  induction cs generalizing i size s with
  | nil => simp [store_clusters] at h
  | cons c cs ih =>
    refine ⟨by simp, ?_⟩
    cases cs with
    | nil =>
      rw [store_clusters] at h
      split_ifs at h with hs
      simpa using hs
    | cons c' cs =>
      rw [store_clusters] at h
      have := (ih h).2
      simp only [List.length_cons] at this ⊢
      omega

/-! ## The freeing loop -/

/-- What the freeing loop does: the cells `l` are empty, their clusters zero, and nothing else
changes. -/
structure Freed (l : List ℕ) (s s' : Fs) : Prop where
  map : ∀ k, cell s'.cluster_map k = if k ∈ l then 0 else cell s.cluster_map k
  disk : ∀ k, clusterAt s'.disk k = if k ∈ l then 0 else clusterAt s.disk k
  dir_table_buf : s'.driver_state.dir_table_buf = s.driver_state.dir_table_buf
  cluster_buf : s'.driver_state.cluster_buf = s.driver_state.cluster_buf

/-- One iteration of the freeing loop. -/
def freeOne (s : Fs) (c : ℕ) : Fs :=
  { disk := write_clusters s.disk 0 (UInt32.ofNat c)
    driver_state := { s.driver_state with cluster_map := setCell s.cluster_map c FAT32_FAT_EMPTY_ENTRY } }

theorem freed_one (s : Fs) {c : ℕ} (hc : c < 512) : Freed [c] s (freeOne s c) where
  map k := by
    by_cases hk : k = c
    · subst hk
      rw [if_pos (by simp)]
      exact cell_setCell_self _ hc _
    · rw [if_neg (by simpa using hk)]
      exact cell_setCell_ne _ hk _
  disk k := by
    simp only [freeOne, clusterAt_write_clusters, clusterIndex_ofNat hc, List.mem_singleton]
  dir_table_buf := rfl
  cluster_buf := rfl

/-- The table after one iteration of the freeing loop. -/
theorem cell_freeOne (s : Fs) {c : ℕ} (hc : c < 512) (k : ℕ) :
    cell (freeOne s c).cluster_map k = if k = c then 0 else cell s.cluster_map k := by
  rw [(freed_one s hc).map]
  simp only [List.mem_singleton]

/-- A chain without the cell just emptied. -/
theorem FatChain.freeOne {s : Fs} {c x : ℕ} {l : List ℕ} (h : FatChain s.cluster_map x l) (hc : c < 512)
    (hnot : c ∉ l) : FatChain (freeOne s c).cluster_map x l := by
  refine h.congr fun k hk => next_of_cell_eq ?_
  rw [cell_freeOne s hc, if_neg]
  rintro rfl
  exact hnot hk

theorem Freed.cons {c : ℕ} {l : List ℕ} {s t u : Fs} (h : Freed [c] s t) (h' : Freed l t u) :
    Freed (c :: l) s u where
  map k := by
    rw [h'.map, h.map]
    by_cases hl : k ∈ l <;> by_cases hc : k = c <;> simp [hl, hc]
  disk k := by
    rw [h'.disk, h.disk]
    by_cases hl : k ∈ l <;> by_cases hc : k = c <;> simp [hl, hc]
  dir_table_buf := h'.dir_table_buf.trans h.dir_table_buf
  cluster_buf := h'.cluster_buf.trans h.cluster_buf

theorem free_chain_succ (fuel : ℕ) (s : Fs) {c : UInt32} (hc : c.toNat < 512) :
    free_chain (fuel + 1) c s =
      if cell s.cluster_map c.toNat ≠ FAT32_FAT_END_OF_FILE then
        free_chain fuel (cell s.cluster_map c.toNat) (freeOne s c.toNat)
      else .ok (freeOne s c.toNat) := by
  rw [free_chain, if_pos hc, freeOne, UInt32.ofNat_toNat]

/-- **The freeing loop empties the chain it is given**, with one unit of fuel a cell. -/
theorem free_chain_spec {l : List ℕ} {x : ℕ} {s : Fs} (h : FatChain s.cluster_map x l)
    (hlt : ∀ k ∈ l, k < 512) {fuel : ℕ} (hfuel : l.length ≤ fuel) {c : UInt32} (hc : c.toNat = x) :
    ∃ s', free_chain fuel c s = .ok s' ∧ Freed l s s' := by
  induction l generalizing x s fuel c with
  | nil => exact absurd h.length_pos (by simp)
  | cons a l ih =>
    obtain ⟨fuel, rfl⟩ : ∃ f, fuel = f + 1 := ⟨fuel - 1, by simp only [List.length_cons] at hfuel; omega⟩
    obtain rfl := h.head_eq
    subst hc
    have hlt' := hlt c.toNat (by simp)
    rw [free_chain_succ fuel s hlt']
    have hone := freed_one s hlt'
    have hnd := h.nodup
    cases h with
    | last hn =>
      rw [if_neg (not_not.mpr (next_eq_none.mp hn))]
      exact ⟨_, rfl, hone⟩
    | link hn ht =>
      rw [if_pos (ne_eof_of_next hn)]
      -- the rest of the chain does not contain the cell just emptied
      have ht' := FatChain.freeOne ht hlt' (List.nodup_cons.mp hnd).1
      obtain ⟨s', h1, h2⟩ := ih ht' (fun k hk => hlt k (List.mem_cons_of_mem _ hk))
        (by simpa using hfuel) (next_eq_some hn)
      exact ⟨s', h1, hone.cons h2⟩

/-! ## The reading loop -/

/-- Byte `a` of the clusters `l`, one after the other. -/
def content (d : Disk) (l : List ℕ) (a : ℕ) : UInt8 :=
  clusterAt d (l.getD (a / 2048) 0) ⟨a % 2048, Nat.mod_lt _ (by omega)⟩

theorem content_cons_of_lt (d : Disk) (c : ℕ) (l : List ℕ) {a : ℕ} (h : a < 2048) :
    content d (c :: l) a = clusterAt d c ⟨a, h⟩ := by
  simp only [content, Nat.div_eq_of_lt h, List.getD_cons_zero, Nat.mod_eq_of_lt h]

theorem content_cons_of_ge (d : Disk) (c : ℕ) (l : List ℕ) {a : ℕ} (h : 2048 ≤ a) :
    content d (c :: l) a = content d l (a - 2048) := by
  obtain ⟨b, rfl⟩ : ∃ b, a = b + 2048 := ⟨a - 2048, by omega⟩
  simp only [content, Nat.add_div_right b (show 0 < 2048 by omega), List.getD_cons_succ,
    Nat.add_mod_right, Nat.add_sub_cancel]

/-- The buffer after `n` clusters of `l` were copied to it from `offset` on. -/
def copyChain (d : Disk) (l : List ℕ) (n offset : ℕ) (buf : Buffer) : Buffer := fun a =>
  if offset ≤ a ∧ a - offset < n * 2048 then content d l (a - offset) else buf a

theorem copyChain_zero (d : Disk) (l : List ℕ) (offset : ℕ) (buf : Buffer) :
    copyChain d l 0 offset buf = buf := by
  funext a
  simp [copyChain]

theorem copyChain_succ (d : Disk) (c : ℕ) (l : List ℕ) (n offset : ℕ) (buf : Buffer) :
    copyChain d l n (offset + 2048) (copyTo buf offset (clusterAt d c)) =
      copyChain d (c :: l) (n + 1) offset buf := by
  funext a
  simp only [copyChain, copyTo]
  by_cases h1 : offset + 2048 ≤ a ∧ a - (offset + 2048) < n * 2048
  · rw [if_pos h1, if_pos (by omega), content_cons_of_ge d c l (by omega),
      show a - (offset + 2048) = a - offset - 2048 by omega]
  · rw [if_neg h1]
    by_cases h2 : offset ≤ a ∧ a - offset < 2048
    · rw [dif_pos h2, if_pos (by omega), content_cons_of_lt d c l h2.2]
    · rw [dif_neg h2, if_neg (by omega)]

/-- **The reading loop copies the first clusters of the chain**, as many as asked for or as the
chain has, and counts the bytes asked for that they hold. -/
theorem read_chain_spec (s : Fs) {l : List ℕ} {x : ℕ} (h : FatChain s.cluster_map x l)
    (hlt : ∀ k ∈ l, k < 512) {n remaining : ℕ} (hn : n * 2048 < remaining + 2048) {c : UInt32}
    (hc : c.toNat = x) (total : ℕ) (buf : Buffer) :
    read_chain s n remaining c total buf = .ok (total + min remaining (min n l.length * 2048),
      copyChain s.disk l (min n l.length) total buf) := by
  induction l generalizing x n remaining c total buf with
  | nil => exact absurd h.length_pos (by simp)
  | cons a l ih =>
    obtain rfl := h.head_eq
    subst hc
    have hlt' := hlt c.toNat (by simp)
    cases n with
    | zero =>
      rw [read_chain, Nat.zero_min, Nat.zero_mul, Nat.min_zero, Nat.add_zero, copyChain_zero]
    | succ n =>
      rw [read_chain, if_neg (ne_eof_of_lt hlt'), if_pos hlt', read_clusters_eq, clusterIndex_of_lt hlt']
      obtain ⟨b, hb⟩ : ∃ b, b = if remaining > 2048 then 2048 else remaining := ⟨_, rfl⟩
      have hb' : b = min 2048 remaining := by rw [hb]; split_ifs <;> omega
      simp only [← hb]
      cases h with
      | last hn' =>
        have hone := copyChain_succ s.disk c.toNat [] 0 total buf
        rw [copyChain_zero] at hone
        have hend : ∀ m t buf, read_chain s n m FAT32_FAT_END_OF_FILE t buf = .ok (t, buf) := by
          intro m t buf
          cases n with
          | zero => rw [read_chain]
          | succ n => rw [read_chain, if_pos rfl]
        rw [next_eq_none.mp hn', hend, hone, List.length_singleton,
          show min (n + 1) 1 = 1 by omega, show min remaining (1 * 2048) = b by omega]
      | link hn' ht =>
        have hrest : n * 2048 < remaining - b + 2048 := by lia
        have hbytes : total + b + min (remaining - b) (min n l.length * 2048) =
            total + min remaining ((min n l.length + 1) * 2048) := by lia
        have hbuf : copyChain s.disk l (min n l.length) (total + b)
            (copyTo buf total (clusterAt s.disk c.toNat)) =
            copyChain s.disk (c.toNat :: l) (min n l.length + 1) total buf := by
          rw [← copyChain_succ]
          rcases Nat.eq_zero_or_pos (min n l.length) with h0 | hpos
          · rw [h0, copyChain_zero, copyChain_zero]
          · have hfull : b = 2048 := by omega
            simp only [hfull]
        rw [ih ht (fun k hk => hlt k (List.mem_cons_of_mem _ hk)) hrest (next_eq_some hn'),
          List.length_cons, show min (n + 1) (l.length + 1) = min n l.length + 1 by omega, hbytes, hbuf]

end KeropOS
