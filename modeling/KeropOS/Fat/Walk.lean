import KeropOS.Fat.Calls
import KeropOS.Fat.Reading

/-!
# Chains from the disk

`initialize_filesystem_fat32` takes the cached table from the disk as it is. The freeing loop of `delete`
follows a chain whose cells it empties on the way; the loop of `read` counts its steps.

* `free_walk`: the freeing loop with the clusters it writes, **`free_walk_snd`**: the loop of `delete`;
* `ProperChain`; **`free_walk_proper`**, **`free_walk_chain`**: the loop stays in the table and off the
  clusters 0 and 1 exactly on proper chains;
* `WalksInRange`; **`read_chain_ok_iff`**: when the loop of `read` stays in the table;
* **`delete_robust_iff`**, `read_in_range`, **`chains_from_disk`**: the two calls on any content.
-/

namespace KeropOS

open Packed Linked

variable {s s' : Fs} {r : FAT32DriverRequest} {i : Fin 64} {c : UInt32} {l : List ℕ}

/-! ## The freeing loop -/

/-- The freeing loop of `delete`, and the clusters it writes. -/
def free_walk : (fuel : ℕ) → (cluster_number : UInt32) → Fs → List UInt32 × Except Trap Fs
  | 0, _, _ => ([], .error .outOfFuel)
  | fuel + 1, cluster_number, s =>
    let disk := write_clusters s.disk 0 cluster_number
    if cluster_number.toNat < 512 then
      let next := cell s.cluster_map cluster_number.toNat
      let s := { disk := disk
                 driver_state := { s.driver_state with
                   cluster_map := setCell s.cluster_map cluster_number.toNat FAT32_FAT_EMPTY_ENTRY } }
      if next ≠ FAT32_FAT_END_OF_FILE then
        (cluster_number :: (free_walk fuel next s).1, (free_walk fuel next s).2)
      else ([cluster_number], .ok s)
    else ([cluster_number], .error .outOfBounds)

/-- **The loop of `delete`.** -/
theorem free_walk_snd (fuel : ℕ) (c : UInt32) (s : Fs) : (free_walk fuel c s).2 = free_chain fuel c s := by
  induction fuel generalizing c s with
  | zero => rfl
  | succ fuel ih =>
    simp only [free_walk, free_chain]
    split_ifs
    · exact ih _ _
    · rfl
    · rfl

theorem free_walk_succ (fuel : ℕ) (s : Fs) (hc : c.toNat < 512) :
    free_walk (fuel + 1) c s =
      if cell s.cluster_map c.toNat ≠ FAT32_FAT_END_OF_FILE then
        (c :: (free_walk fuel (cell s.cluster_map c.toNat) (freeOne s c.toNat)).1,
          (free_walk fuel (cell s.cluster_map c.toNat) (freeOne s c.toNat)).2)
      else ([c], .ok (freeOne s c.toNat)) := by
  rw [free_walk, if_pos hc, freeOne, UInt32.ofNat_toNat]

/-- The chain of cells 2 to 511 that starts at `c` and has an end. -/
def ProperChain (m : ClusterMap) (c : ℕ) : Prop := ∃ l, FatChain m c l ∧ ∀ k ∈ l, 2 ≤ k ∧ k < 512

/-- A chain behind a cell just emptied does not come back to it: from there it would lead to cell 0. -/
theorem notMem_of_freed {x : ℕ} (hc : c.toNat < 512) (hl : FatChain (freeOne s c.toNat).cluster_map x l)
    (hpos : ∀ k ∈ l, 2 ≤ k) : c.toNat ∉ l := by
  intro hm
  have hcell : cell (freeOne s c.toNat).cluster_map c.toNat = 0 := by
    rw [cell_freeOne s hc, if_pos rfl]
  have hnext : next (freeOne s c.toNat).cluster_map c.toNat = some 0 := by
    unfold next
    rw [hcell]
    rfl
  have := hpos 0 (hl.next_mem hm hnext)
  omega

theorem mem_free_walk (fuel : ℕ) (c : UInt32) (s : Fs) : c ∈ (free_walk (fuel + 1) c s).1 := by
  simp only [free_walk]
  split_ifs <;> simp

/-- **What the freeing loop follows is a proper chain**, when it ends and writes none but clusters 2 to 511. -/
theorem free_walk_chain {fuel : ℕ} (h : (free_walk fuel c s).2 = .ok s')
    (hrange : ∀ k ∈ (free_walk fuel c s).1, 2 ≤ k.toNat ∧ k.toNat < 512) :
    ProperChain s.cluster_map c.toNat := by
  induction fuel generalizing c s with
  | zero => simp [free_walk] at h
  | succ fuel ih =>
    have hc := hrange c (mem_free_walk fuel c s)
    rw [free_walk_succ fuel s hc.2] at h hrange
    split_ifs at h hrange with hnext
    · obtain ⟨l, hl, hb⟩ := ih h fun k hk => hrange k (List.mem_cons_of_mem _ hk)
      have hnot := notMem_of_freed hc.2 hl fun k hk => (hb k hk).1
      have hl' : FatChain s.cluster_map (cell s.cluster_map c.toNat).toNat l := hl.congr fun k hk =>
        next_of_cell_eq (by rw [cell_freeOne s hc.2, if_neg (by rintro rfl; exact hnot hk)])
      refine ⟨c.toNat :: l, .link ?_ hl', ?_⟩
      · unfold next
        rw [if_neg hnext]
      · intro k hk
        rcases List.mem_cons.mp hk with rfl | hk
        · exact hc
        · exact hb k hk
    · refine ⟨[c.toNat], .last (next_eq_none.mpr (not_not.mp hnext)), fun k hk => ?_⟩
      obtain rfl := List.mem_singleton.mp hk
      exact hc

/-- **The freeing loop follows a chain to its end** and writes its clusters. -/
theorem free_walk_proper {x : ℕ} (h : FatChain s.cluster_map x l) (hlt : ∀ k ∈ l, k < 512) {fuel : ℕ}
    (hfuel : l.length ≤ fuel) (hc : c.toNat = x) : (free_walk fuel c s).1.map UInt32.toNat = l := by
  induction l generalizing x s fuel c with
  | nil => exact absurd h.length_pos (by simp)
  | cons a l ih =>
    obtain ⟨fuel, rfl⟩ : ∃ f, fuel = f + 1 := ⟨fuel - 1, by simp only [List.length_cons] at hfuel; omega⟩
    obtain rfl := h.head_eq
    subst hc
    have hlt' := hlt c.toNat (by simp)
    rw [free_walk_succ fuel s hlt']
    have hnd := h.nodup
    cases h with
    | last hn => rw [if_neg (not_not.mpr (next_eq_none.mp hn)), List.map_singleton]
    | link hn ht =>
      have ht' := FatChain.freeOne ht hlt' (List.nodup_cons.mp hnd).1
      have hrest := ih ht' (fun k hk => hlt k (List.mem_cons_of_mem _ hk)) (by simpa using hfuel)
        (next_eq_some hn)
      rw [if_pos (ne_eof_of_next hn), List.map_cons, hrest]

/-! ## The reading loop -/

/-- `n` steps from `c` index the table inside, or come to the end of a chain. -/
def WalksInRange (m : ClusterMap) : (n : ℕ) → UInt32 → Prop
  | 0, _ => True
  | n + 1, c => c = FAT32_FAT_END_OF_FILE ∨ (c.toNat < 512 ∧ WalksInRange m n (cell m c.toNat))

/-- **When the loop of `read` stays in the table.** -/
theorem read_chain_ok_iff (s : Fs) (n remaining : ℕ) (c : UInt32) (total : ℕ) (buf : Buffer) :
    (∃ out, read_chain s n remaining c total buf = .ok out) ↔ WalksInRange s.cluster_map n c := by
  induction n generalizing remaining c total buf with
  | zero => exact iff_of_true ⟨_, rfl⟩ trivial
  | succ n ih =>
    rw [read_chain, WalksInRange]
    by_cases hend : c = FAT32_FAT_END_OF_FILE
    · rw [if_pos hend]
      exact iff_of_true ⟨_, rfl⟩ (.inl hend)
    · rw [if_neg hend, or_iff_right hend]
      by_cases hc : c.toNat < 512
      · rw [if_pos hc, and_iff_right hc]
        exact ih _ _ _ _
      · rw [if_neg hc]
        exact iff_of_false (by simp) fun h => hc h.1

/-! ## The two calls on any content -/

/-- `delete` of the file in slot `i` returns 0; the freeing loop writes clusters 2 to 511 only, and the
call writes no other cluster than these, the table's and the parent's. -/
structure RobustDelete (fuel : ℕ) (s s' : Fs) (r : FAT32DriverRequest) (i : Fin 64) : Prop where
  returns : delete fuel s r = .ok (0, s')
  range : ∀ c ∈ (free_walk fuel (parentTable s r i).cluster s).1, 2 ≤ c.toNat ∧ c.toNat < 512
  frame : ∀ k, (∀ c ∈ (free_walk fuel (parentTable s r i).cluster s).1, c.toNat ≠ k) → k ≠ 1 →
    k ≠ clusterIndex r.parent_cluster_number → clusterAt s'.disk k = clusterAt s.disk k

section

variable (hname : r.name ≠ 0) (hi : FoundAt (parentTable s r) r i)
  (hattr : (parentTable s r i).attr ≠ ATTR_SUBDIRECTORY)

include hname hi hattr

theorem RobustDelete.proper {fuel : ℕ} (h : RobustDelete fuel s s' r i) :
    ProperChain s.cluster_map (parentTable s r i).cluster.toNat := by
  have hdelete := h.returns
  rw [delete_eq rfl hname hi, if_neg hattr, ← free_walk_snd] at hdelete
  rcases hwalk : (free_walk fuel (parentTable s r i).cluster s).2 with t | s₁
  · rw [hwalk] at hdelete
    exact absurd hdelete (by simp [Except.map])
  · exact free_walk_chain hwalk h.range

theorem ProperChain.robust (h : ProperChain s.cluster_map (parentTable s r i).cluster.toNat) :
    ∃ fuel s', RobustDelete fuel s s' r i := by
  obtain ⟨l, hl, hb⟩ := h
  have hlt : ∀ k ∈ l, k < 512 := fun k hk => (hb k hk).2
  obtain ⟨s', hdelete, hremoved⟩ := delete_file rfl hname hi hattr hl hlt le_rfl
  have hwalk := free_walk_proper hl hlt le_rfl rfl
  refine ⟨l.length, s', hdelete, fun c hc => hb _ ?_, fun k hk h1 hP => ?_⟩
  · rw [← hwalk]
    exact List.mem_map_of_mem hc
  · rw [hremoved.disk, if_neg hP, if_neg h1, if_neg]
    intro hm
    rw [← hwalk] at hm
    obtain ⟨c, hc, hck⟩ := List.mem_map.mp hm
    exact hk c hc hck

/-- **When `delete` is robust**: on a proper chain. -/
theorem delete_robust_iff : (∃ fuel s', RobustDelete fuel s s' r i) ↔
    ProperChain s.cluster_map (parentTable s r i).cluster.toNat :=
  ⟨fun ⟨_, _, h⟩ => h.proper hname hi hattr, fun h => h.robust hname hi hattr⟩

end

/-- `read` on any content: it indexes the table inside when its steps do. -/
theorem read_in_range (h : ∀ j, j ≠ 0 → keyMatches r (parentTable s r j) = true →
    WalksInRange s.cluster_map ((r.buffer_size.toNat + 2047) % 2 ^ 32 / 2048) (parentTable s r j).cluster) :
    ∃ reply, read s r = .ok reply :=
  read_returns_of_chains fun j hj hk _ buf => (read_chain_ok_iff s _ _ _ 0 buf).mpr (h j hj hk)

/-- **The two calls on any content of the table and of the parent.** -/
theorem chains_from_disk (s : Fs) (r : FAT32DriverRequest) (i : Fin 64) (hname : r.name ≠ 0)
    (hi : FoundAt (parentTable s r) r i) (hattr : (parentTable s r i).attr ≠ ATTR_SUBDIRECTORY) :
    ((∃ fuel s', RobustDelete fuel s s' r i) ↔ ProperChain s.cluster_map (parentTable s r i).cluster.toNat) ∧
      ((∀ j, j ≠ 0 → keyMatches r (parentTable s r j) = true → WalksInRange s.cluster_map
        ((r.buffer_size.toNat + 2047) % 2 ^ 32 / 2048) (parentTable s r j).cluster) →
          ∃ reply, read s r = .ok reply) :=
  ⟨delete_robust_iff hname hi hattr, read_in_range⟩

/-! ## Two disks -/

/-- The entry that a request names is the one found. -/
theorem Inv.foundAt (hs : Inv s) (hi : Names s r i) : r.name ≠ 0 ∧ FoundAt (parentTable s r) r i := by
  have hidx := clusterIndex_of_lt (hs.live_bounds hi.held.live).2
  obtain ⟨l, hl⟩ := hs.sound hi.held
  have hname : r.name ≠ 0 := by
    rw [← hi.name]
    exact hl.name
  obtain ⟨j, hj⟩ := exists_foundAt (t := parentTable s r) hi.held.slot (by
    rw [parentTable, hidx]
    exact ⟨hi.name, hi.ext⟩)
  have hj' := hj
  rw [parentTable, hidx] at hj'
  obtain rfl := hs.names (hj'.held hs hi.held.live hname) hi.held (hj'.spec.2.1.trans hi.name.symm)
  exact ⟨hname, hj⟩

/-- The first file of a new file system. -/
theorem chains_from_disk_first : ∃ reply s fuel s', Step (boot 0) (.write firstFile, reply) s ∧
    RobustDelete fuel s s' (firstRead 5) 1 := by
  obtain ⟨reply, s, hstep, hs, hi, hattr, -, l, hl, -⟩ := boot_names 0 5
  obtain ⟨hname, hfound⟩ := hs.foundAt hi
  have htable : parentTable s (firstRead 5) = tableAt s 2 := by
    rw [parentTable, show clusterIndex (firstRead 5).parent_cluster_number = 2 from rfl]
  have hproper : ProperChain s.cluster_map (parentTable s (firstRead 5) 1).cluster.toNat := by
    rw [htable]
    exact ⟨l, hl.chain, fun k hk => ⟨by have := (hl.bounds k hk).1; omega, (hl.bounds k hk).2⟩⟩
  obtain ⟨fuel, s', h⟩ := (chains_from_disk s (firstRead 5) 1 hname hfound (by rw [htable]; exact hattr)).1.mpr
    hproper
  exact ⟨reply, s, fuel, s', hstep, h⟩

/-- A new file system with a file in the root whose cell is empty: the table was not written. -/
def tornDisk : Disk :=
  write_clusters (boot 0).disk (tableLayout.encode
    (Function.update (tableAt (boot 0) 2) 1 (fileEntry firstFile.name firstFile.ext 5 3))) 2

/-- The file system on that disk. -/
def torn : Fs := initialize_filesystem_fat32 { boot 0 with disk := tornDisk }

theorem clusterAt_tornDisk (k : ℕ) : clusterAt tornDisk k = if k = 2 then tableLayout.encode
    (Function.update (tableAt (boot 0) 2) 1 (fileEntry firstFile.name firstFile.ext 5 3))
    else clusterAt (boot 0).disk k := by
  rw [tornDisk, clusterAt_write_clusters]
  rfl

theorem tornDisk_not_empty : is_empty_storage tornDisk = false := by
  have hsig : read_blocks tornDisk 0 1 = fs_signature := by
    rw [← (inv_boot 0).signature]
    funext a
    rw [read_block_zero, read_block_zero, clusterAt_tornDisk, if_neg (by omega)]
  rw [is_empty_storage, hsig]
  simp [sameBytes_iff]

theorem torn_eq : torn.disk = tornDisk ∧ torn.cluster_map = (boot 0).cluster_map := by
  rw [torn, initialize_filesystem_fat32, if_neg (by rw [tornDisk_not_empty]; simp)]
  refine ⟨by dsimp only, ?_⟩
  dsimp only [Fs.cluster_map]
  rw [read_clusters_eq, show clusterIndex 1 = 1 from rfl, clusterAt_tornDisk, if_neg (by omega),
    (inv_boot 0).fat, Layout.decode_encode]

/-- `delete` of that file goes on to cell 0 and zeroes the boot sector. -/
theorem delete_zeroes_boot_sector : is_empty_storage tornDisk = false ∧ firstFile.name ≠ 0 ∧
    FoundAt (parentTable torn firstFile) firstFile 1 ∧
    (parentTable torn firstFile 1).attr ≠ ATTR_SUBDIRECTORY ∧
    (0 : UInt32) ∈ (free_walk 2 (parentTable torn firstFile 1).cluster torn).1 ∧
    ¬ ∃ fuel s', RobustDelete fuel torn s' firstFile 1 := by
  obtain ⟨hdisk, hmap⟩ := torn_eq
  have hname : firstFile.name ≠ 0 := fun h => absurd (congrFun h 0) (by decide)
  have htable : parentTable torn firstFile =
      Function.update (tableAt (boot 0) 2) 1 (fileEntry firstFile.name firstFile.ext 5 3) := by
    rw [parentTable, show clusterIndex firstFile.parent_cluster_number = 2 from rfl, tableAt, hdisk,
      clusterAt_tornDisk, if_pos rfl]
    exact Layout.decode_encode _ _
  have hentry : parentTable torn firstFile 1 = fileEntry firstFile.name firstFile.ext 5 3 := by
    rw [htable, Function.update_self]
  have hattr : (parentTable torn firstFile 1).attr ≠ ATTR_SUBDIRECTORY := by
    rw [hentry]
    exact attr_fileEntry _ _ _ _
  have hc : (parentTable torn firstFile 1).cluster = 3 := by
    rw [hentry, cluster_fileEntry]
  have hfound : FoundAt (parentTable torn firstFile) firstFile 1 := by
    obtain ⟨j, hj⟩ := exists_foundAt (t := parentTable torn firstFile) (r := firstFile) (i := 1) (by decide)
      (by rw [hentry]; exact ⟨rfl, rfl⟩)
    by_cases h1 : j = 1
    · subst h1
      exact hj
    · have hn := hj.spec.2.1
      rw [htable, Function.update_of_ne h1, boot_slot 0 hj.spec.1] at hn
      exact absurd hn.symm hname
  -- the cell of the file is empty, so that the walk goes on to cell 0
  have hcell : cell torn.cluster_map 3 = 0 := by
    rw [hmap, boot_map, cell_setCell_ne _ (by omega), cell_setCell_ne _ (by omega), cell_setCell_ne _ (by omega),
      cell_of_lt _ (by omega)]
    rfl
  refine ⟨tornDisk_not_empty, hname, hfound, hattr, ?_, ?_⟩
  · rw [hc, free_walk_succ 1 torn (by decide), show (3 : UInt32).toNat = 3 from rfl, hcell, if_pos (by decide)]
    exact List.mem_cons_of_mem _ (mem_free_walk 0 0 _)
  · rintro ⟨fuel, s', h⟩
    obtain ⟨l, hl, hb⟩ := h.proper hname hfound hattr
    rw [hc] at hl
    have hnext : next torn.cluster_map 3 = some 0 := by
      unfold next
      rw [hcell]
      rfl
    have := hb 0 (hl.next_mem hl.head_mem hnext)
    omega

end KeropOS
