import KeropOS.Fat.Cells

/-!
# What each call does

* `tableAt`, `fileEntry`, `folderEntry`;
* `Allocated`: the effect of a successful `write`, **`write_cases`**, `write_returns`;
* `Removed`: the effect of a successful `delete`, **`delete_cases`**;
* **`read_hit`**, `read_miss`: the replies of `read`.
-/

namespace KeropOS

open Packed Linked

/-- The directory table in cluster `c`. -/
def tableAt (s : Fs) (c : ℕ) : FAT32DirectoryTable := tableLayout.decode (clusterAt s.disk c)

/-- The entry of a file. -/
def fileEntry (name : Bytes 8) (ext : Bytes 3) (size c : UInt32) : FAT32DirectoryEntry where
  name := name
  ext := ext
  attr := ATTR_ARCHIVE
  user_attribute := UATTR_NOT_EMPTY
  undelete := 0
  create_time := 0
  create_date := 0
  access_date := 0
  cluster_high := clusterHigh c
  modified_time := 0
  modified_date := 0
  cluster_low := clusterLow c
  filesize := size

/-- The entry of a folder in cluster `c`; also the entry 0 of a folder whose parent is `c`. -/
def folderEntry (name : Bytes 8) (ext : Bytes 3) (c : UInt32) : FAT32DirectoryEntry :=
  { fileEntry name ext 0 c with attr := ATTR_SUBDIRECTORY }

theorem cluster_fileEntry (name : Bytes 8) (ext : Bytes 3) (size c : UInt32) :
    (fileEntry name ext size c).cluster = c := high_or_low c

theorem cluster_folderEntry (name : Bytes 8) (ext : Bytes 3) (c : UInt32) :
    (folderEntry name ext c).cluster = c := high_or_low c

theorem root_name_ne_zero : root_name ≠ 0 := fun h => absurd (congrFun h 0) (by decide)

theorem init_directory_table_eq (t : FAT32DirectoryTable) (name : Bytes 8) (p : UInt32) :
    init_directory_table t name p = Function.update t 0 (folderEntry name 0 p) := rfl

theorem mem_slots {i : Fin 64} : i ∈ (List.finRange 64).tail ↔ i ≠ 0 := by
  rw [List.finRange_succ, List.tail_cons, List.mem_map]
  constructor
  · rintro ⟨j, -, rfl⟩; exact Fin.succ_ne_zero j
  · intro h; exact ⟨i.pred h, List.mem_finRange _, Fin.succ_pred i h⟩

/-! ## The tables stored at the end -/

theorem clusterAt_store_tables (s : Fs) (t : FAT32DirectoryTable) (p : UInt32) (k : ℕ) :
    clusterAt (store_tables s t p).disk k =
      if k = clusterIndex p then tableLayout.encode t
      else if k = 1 then fatLayout.encode s.cluster_map else clusterAt s.disk k := by
  rw [store_tables, clusterAt_write_clusters, clusterAt_write_clusters]
  rfl

/-! ## `write` -/

/-- The clusters needed for a file of `size` bytes. -/
def clustersFor (size : ℕ) : ℕ := (size + 2047) / 2048

/-- The effect of a `write` that returns 0: the cells `cs`, empty before, become a chain, entry
`e` naming the first of them goes to slot `n` of cluster `P`, and `data` to the clusters. -/
structure Allocated (s s' : Fs) (P : ℕ) (n : Fin 64) (e : FAT32DirectoryEntry) (cs : List ℕ)
    (data : ℕ → Cluster) : Prop where
  fresh : ∀ c ∈ cs, (2 ≤ c ∧ c < 512) ∧ cell s.cluster_map c = 0
  nodup : cs.Nodup
  head : ∃ t, cs = e.cluster.toNat :: t
  map : s'.cluster_map = linkCells s.cluster_map cs
  disk : ∀ k, clusterAt s'.disk k =
    if k = P then tableLayout.encode (Function.update (tableAt s P) n e)
    else if k = 1 then fatLayout.encode s'.cluster_map
    else if k ∈ cs then data k else clusterAt s.disk k

/-- Slot `n` of `t` is the first one that is not in use. -/
def FirstFree (t : FAT32DirectoryTable) (n : Fin 64) : Prop := ¬ (t n).InUse ∧ ∀ m < n, (t m).InUse

theorem FirstFree.unique {t : FAT32DirectoryTable} {m n : Fin 64} (h : FirstFree t n) (h' : FirstFree t m) :
    n = m :=
  le_antisymm (not_lt.mp fun hlt => h'.1 (h.2 m hlt)) (not_lt.mp fun hlt => h.1 (h'.2 n hlt))

/-- The name of the request is new in `t`. -/
def FreshName (t : FAT32DirectoryTable) (name : Bytes 8) : Prop := ∀ i, i ≠ 0 → (t i).name ≠ name

/-- What a `write` that returns 0 found. -/
structure WriteOk (s : Fs) (r : FAT32DriverRequest) (n : Fin 64) : Prop where
  name : r.name ≠ 0
  parent : 2 ≤ r.parent_cluster_number.toNat
  fresh : FreshName (tableAt s (clusterIndex r.parent_cluster_number)) r.name
  slot : FirstFree (tableAt s (clusterIndex r.parent_cluster_number)) n

/-- The number of cells a `write` looks for. -/
def cellsNeeded (size : UInt32) : ℕ := if size = 0 then 1 else n_cluster size

/-- Why a `write` returns another code than 0. -/
inductive Refused (s : Fs) (r : FAT32DriverRequest) : ℤ → Prop
  | unnamed : r.name = 0 → Refused s r (-1)
  | parent : r.parent_cluster_number.toNat < 2 → Refused s r 2
  | taken : ¬ FreshName (tableAt s (clusterIndex r.parent_cluster_number)) r.name → Refused s r 1
  | full : (emptyCells s.cluster_map).length < cellsNeeded r.buffer_size → Refused s r 1

theorem Refused.code_ne_zero {s : Fs} {r : FAT32DriverRequest} {code : ℤ} (h : Refused s r code) :
    code ≠ 0 := by
  cases h <;> decide

/-- A successful folder write. -/
structure WroteFolder (newDir : FAT32DirectoryTable) (s s' : Fs) (r : FAT32DriverRequest) (n : Fin 64)
    (i : ℕ) : Prop where
  ok : WriteOk s r n
  alloc : Allocated s s' (clusterIndex r.parent_cluster_number) n
    (folderEntry r.name (tableAt s (clusterIndex r.parent_cluster_number) n).ext (UInt32.ofNat i)) [i]
    fun _ => tableLayout.encode (Function.update newDir 0 (folderEntry r.name 0 r.parent_cluster_number))
  found : i = (emptyCells s.cluster_map).headD 512

/-- A successful file write. -/
structure WroteFile (s s' : Fs) (r : FAT32DriverRequest) (n : Fin 64) (cs : List ℕ)
    (data : ℕ → Cluster) : Prop where
  ok : WriteOk s r n
  alloc : Allocated s s' (clusterIndex r.parent_cluster_number) n
    (fileEntry r.name r.ext r.buffer_size (UInt32.ofNat (cs.headD 0))) cs data
  length : cs.length = n_cluster r.buffer_size
  filled : ∀ j (h : j < cs.length),
    data cs[j] = chunk r.buf (j * 2048) (min 2048 (r.buffer_size.toNat - j * 2048))
  found : cs = (emptyCells s.cluster_map).take (n_cluster r.buffer_size)

/-- The disk and the cached table are the same. -/
structure Untouched (s s' : Fs) : Prop where
  disk : s'.disk = s.disk
  map : s'.cluster_map = s.cluster_map
  dir_table_buf : s'.driver_state.dir_table_buf = s.driver_state.dir_table_buf

theorem Untouched.refl (s : Fs) : Untouched s s := ⟨rfl, rfl, rfl⟩

/-- A size for which `n_cluster` is the number of clusters of the file. -/
def SizeOk (size : UInt32) : Prop := 1 ≤ size.toNat ∧ size.toNat ≤ 255 * 2048

theorem size_ne_zero {size : UInt32} (h : 1 ≤ size.toNat) : size ≠ 0 := by
  rintro rfl
  exact absurd h (by decide)

theorem SizeOk.ne_zero {size : UInt32} (h : SizeOk size) : size ≠ 0 := size_ne_zero h.1

theorem n_cluster_eq_mod (size : UInt32) : n_cluster size = clustersFor size.toNat % 256 := by
  unfold n_cluster clustersFor
  congr 1
  split_ifs <;> omega

theorem n_cluster_eq {size : UInt32} (h : SizeOk size) :
    n_cluster size = clustersFor size.toNat := by
  obtain ⟨h1, h2⟩ := h
  rw [n_cluster_eq_mod]
  unfold clustersFor
  omega

theorem mem_emptyCells_take {m : ClusterMap} {n k : ℕ} (h : k ∈ (emptyCells m).take n) :
    (2 ≤ k ∧ k < 512) ∧ cell m k = 0 :=
  mem_emptyCells.mp (List.mem_of_mem_take h)

/-- The folder branch of `write`. -/
theorem write_folder_cases {newDir : FAT32DirectoryTable} {s s' : Fs} {r : FAT32DriverRequest}
    {n : Fin 64} {e : FAT32DirectoryEntry} {code : ℤ}
    (h : write_folder newDir s r (tableAt s (clusterIndex r.parent_cluster_number)) n e = (code, s'))
    (he : ∀ i, { e with cluster_high := clusterHigh i, cluster_low := clusterLow i } =
      folderEntry r.name e.ext i) :
    (code = 1 ∧ s' = s ∧ emptyCells s.cluster_map = []) ∨ (code = 0 ∧ ∃ i,
      Allocated s s' (clusterIndex r.parent_cluster_number) n (folderEntry r.name e.ext (UInt32.ofNat i))
        [i] (fun _ => tableLayout.encode
          (Function.update newDir 0 (folderEntry r.name 0 r.parent_cluster_number))) ∧
      i = (emptyCells s.cluster_map).headD 512) := by
  rw [write_folder, find_folder_cell_eq] at h
  rcases hc : emptyCells s.cluster_map with _ | ⟨i, cs⟩
  · have : (emptyCells s.driver_state.cluster_map).headD 512 = 512 := by
      rw [show emptyCells s.driver_state.cluster_map = [] from hc]; rfl
    rw [this, if_pos rfl] at h
    obtain ⟨rfl, rfl⟩ := Prod.mk.inj h
    exact .inl ⟨rfl, rfl, rfl⟩
  · have hi : (2 ≤ i ∧ i < 512) ∧ cell s.cluster_map i = 0 := mem_emptyCells.mp (by rw [hc]; simp)
    have : (emptyCells s.driver_state.cluster_map).headD 512 = i := by
      rw [show emptyCells s.driver_state.cluster_map = i :: cs from hc]; rfl
    rw [this, if_neg (by omega), he, init_directory_table_eq] at h
    obtain ⟨rfl, rfl⟩ := Prod.mk.inj h
    refine .inr ⟨rfl, i, ⟨by simpa using hi, List.nodup_singleton i, ⟨[], ?_⟩, rfl, fun k => ?_⟩, rfl⟩
    · rw [cluster_folderEntry, toNat_ofNat_of_lt hi.1.2]
    · rw [clusterAt_store_tables, clusterAt_write_clusters, clusterIndex_ofNat hi.1.2]
      simp only [List.mem_singleton]
      rfl

/-- The file branch of `write`. -/
theorem write_file_cases {s s' : Fs} {r : FAT32DriverRequest} {n : Fin 64} {e : FAT32DirectoryEntry}
    {code : ℤ}
    (h : write_file s r (tableAt s (clusterIndex r.parent_cluster_number)) n e = .ok (code, s'))
    (he : ∀ i, { e with ext := r.ext, cluster_high := clusterHigh i, cluster_low := clusterLow i } =
      fileEntry r.name r.ext r.buffer_size i) :
    (code = 1 ∧ Untouched s s' ∧ (emptyCells s.cluster_map).length < n_cluster r.buffer_size) ∨
      (code = 0 ∧ ∃ cs data, SizeOk r.buffer_size ∧ cs.length = n_cluster r.buffer_size ∧
        (∀ j (h : j < cs.length), data cs[j] =
          chunk r.buf (j * 2048) (min 2048 (r.buffer_size.toNat - j * 2048))) ∧
        Allocated s s' (clusterIndex r.parent_cluster_number) n
          (fileEntry r.name r.ext r.buffer_size (UInt32.ofNat (cs.headD 0))) cs data ∧
        cs = (emptyCells s.cluster_map).take (n_cluster r.buffer_size)) := by
  rw [write_file, find_file_cells_eq] at h
  obtain ⟨cs, hcs⟩ : ∃ cs, cs = (emptyCells s.cluster_map).take (n_cluster r.buffer_size) := ⟨_, rfl⟩
  have hfresh : ∀ k ∈ cs, (2 ≤ k ∧ k < 512) ∧ cell s.cluster_map k = 0 := by
    rw [hcs]; exact fun k hk => mem_emptyCells_take hk
  have hnd : cs.Nodup := by
    rw [hcs]; exact (nodup_emptyCells _).sublist (List.take_sublist _ _)
  rw [← hcs] at h
  simp only [he] at h
  split_ifs at h with hlen
  · obtain ⟨rfl, rfl⟩ := Prod.mk.inj (Except.ok.inj h)
    rw [hcs, List.length_take] at hlen
    exact .inl ⟨rfl, ⟨rfl, rfl, rfl⟩, by omega⟩
  · split at h
    · exact absurd h (by simp)
    · rename_i s₁ hst
      obtain ⟨hne, hfit⟩ := store_clusters_fits hst
      have hlen' : cs.length = n_cluster r.buffer_size := by
        refine le_antisymm ?_ (not_lt.mp hlen)
        rw [hcs, List.length_take]
        exact Nat.min_le_left _ _
      have hmod := n_cluster_eq_mod r.buffer_size
      have hpos := List.length_pos_iff.mpr hne
      have hsize : cs.length * 2048 < r.buffer_size.toNat + 2048 ∧ SizeOk r.buffer_size := by
        unfold clustersFor at hmod
        unfold SizeOk
        omega
      have hs := store_clusters_spec r.buf hnd (fun k hk => (hfresh k hk).1.2) hsize.1 hst
      obtain ⟨rfl, rfl⟩ := Prod.mk.inj (Except.ok.inj h)
      refine .inr ⟨rfl, cs, clusterAt s₁.disk, hsize.2, hlen', fun j hj => ?_,
        ⟨hfresh, hnd, ?_, hs.map, fun k => ?_⟩, hcs⟩
      · rw [hs.filled j hj, Nat.zero_add]
      · obtain ⟨c, t, rfl⟩ := List.exists_cons_of_ne_nil hne
        exact ⟨t, by rw [cluster_fileEntry, List.headD_cons, toNat_ofNat_of_lt (hfresh c (by simp)).1.2]⟩
      · rw [clusterAt_store_tables]
        by_cases hk : k ∈ cs
        · simp only [hk, if_true]
          rfl
        · simp only [hk, if_false, hs.frame k hk]
          rfl

theorem find?_first_free {t : FAT32DirectoryTable} {n : Fin 64} :
    (Fin.find? fun n => (t n).user_attribute != UATTR_NOT_EMPTY) = some n ↔ FirstFree t n := by
  rw [Fin.find?_eq_some_iff]
  simp [FirstFree, FAT32DirectoryEntry.InUse]

theorem any_name {t : FAT32DirectoryTable} {name : Bytes 8} :
    ((List.finRange 64).tail.any fun i => sameBytes (t i).name name) = true ↔
      ∃ i, i ≠ 0 ∧ (t i).name = name := by
  simp only [List.any_eq_true, mem_slots, sameBytes_iff]

/-- The state after `write` has read the parent into `cluster_buf`. -/
def loaded (s : Fs) (P : ℕ) : Fs := { s with driver_state.cluster_buf := clusterAt s.disk P }

/-- `write` past its two checks of the request. -/
theorem write_eq (newDir : FAT32DirectoryTable) (s : Fs) (r : FAT32DriverRequest) (hname : r.name ≠ 0)
    (hparent : 2 ≤ r.parent_cluster_number.toNat) {P : ℕ} (hP : clusterIndex r.parent_cluster_number = P) :
    write newDir s r =
      if (List.finRange 64).tail.any fun i => sameBytes (tableAt s P i).name r.name then
        .ok (1, loaded s P)
      else
        match Fin.find? fun n => (tableAt s P n).user_attribute != UATTR_NOT_EMPTY with
        | none => .error .outOfBounds
        | some n =>
          if r.buffer_size = 0 then
            .ok (write_folder newDir (loaded s P) r (tableAt s P) n (fill_entry r (tableAt s P n)))
          else write_file (loaded s P) r (tableAt s P) n (fill_entry r (tableAt s P n)) := by
  subst hP
  rw [write, if_neg (by simpa using hname), if_neg (by omega), read_clusters_eq]
  rfl

/-- An effect from the state `loaded` is one from the state before. -/
theorem Allocated.of_loaded {s s' : Fs} {P Q : ℕ} {n : Fin 64} {e : FAT32DirectoryEntry} {cs : List ℕ}
    {data : ℕ → Cluster} (h : Allocated (loaded s Q) s' P n e cs data) : Allocated s s' P n e cs data :=
  ⟨h.fresh, h.nodup, h.head, h.map, h.disk⟩

/-- **What `write` does.** Every return code but 0 leaves the disk and the cached table as they
were. -/
theorem write_cases {newDir : FAT32DirectoryTable} {s s' : Fs} {r : FAT32DriverRequest} {code : ℤ}
    (h : write newDir s r = .ok (code, s')) :
    (Refused s r code ∧ Untouched s s') ∨
      (code = 0 ∧ r.buffer_size = 0 ∧ ∃ n i, WroteFolder newDir s s' r n i) ∨
      (code = 0 ∧ SizeOk r.buffer_size ∧ ∃ n cs data, WroteFile s s' r n cs data) := by
  by_cases hname : r.name = 0
  · rw [write, if_pos (by simpa using hname)] at h
    obtain ⟨rfl, rfl⟩ := Prod.mk.inj (Except.ok.inj h)
    exact .inl ⟨.unnamed hname, .refl s⟩
  by_cases hparent : r.parent_cluster_number.toNat < 2
  · rw [write, if_neg (by simpa using hname), if_pos hparent] at h
    obtain ⟨rfl, rfl⟩ := Prod.mk.inj (Except.ok.inj h)
    exact .inl ⟨.parent hparent, .refl s⟩
  rw [write_eq newDir s r hname (by omega) rfl] at h
  split_ifs at h with hsame hsize
  · obtain ⟨rfl, rfl⟩ := Prod.mk.inj (Except.ok.inj h)
    obtain ⟨i, hi, e⟩ := any_name.mp hsame
    exact .inl ⟨.taken fun hf => hf i hi e, rfl, rfl, rfl⟩
  all_goals
    have hok : ∀ {n}, FirstFree (tableAt s (clusterIndex r.parent_cluster_number)) n → WriteOk s r n :=
      fun hfree => ⟨hname, by omega, fun i hi e => hsame (any_name.mpr ⟨i, hi, e⟩), hfree⟩
    split at h
    · exact absurd h (by simp)
  · rename_i n hn
    have hok := hok (find?_first_free.mp hn)
    have he : ∀ i, { fill_entry r (tableAt s (clusterIndex r.parent_cluster_number) n) with
        cluster_high := clusterHigh i, cluster_low := clusterLow i } =
        folderEntry r.name (tableAt s (clusterIndex r.parent_cluster_number) n).ext i := fun i => by
      simp only [fill_entry, folderEntry, fileEntry, hsize, if_true]
    rcases write_folder_cases (Except.ok.inj h) he with ⟨rfl, rfl, hfull⟩ | ⟨rfl, i, ha, hfound⟩
    · refine .inl ⟨.full ?_, rfl, rfl, rfl⟩
      rw [cellsNeeded, if_pos hsize, show emptyCells s.cluster_map = [] from hfull]
      exact Nat.zero_lt_one
    · exact .inr (.inl ⟨rfl, hsize, n, i, ⟨hok, ha.of_loaded, hfound⟩⟩)
  · rename_i n hn
    have hok := hok (find?_first_free.mp hn)
    have he : ∀ i, { fill_entry r (tableAt s (clusterIndex r.parent_cluster_number) n) with
        ext := r.ext, cluster_high := clusterHigh i, cluster_low := clusterLow i } =
        fileEntry r.name r.ext r.buffer_size i := fun i => by
      simp only [fill_entry, fileEntry, hsize, if_false]
    rcases write_file_cases h he with ⟨rfl, hu, hfull⟩ | ⟨rfl, cs, data, hs, hlen, hfill, ha, hfound⟩
    · refine .inl ⟨.full ?_, hu.disk, hu.map, hu.dir_table_buf⟩
      rw [cellsNeeded, if_neg hsize]
      exact hfull
    · exact .inr (.inr ⟨rfl, hs, n, cs, data, hok, ha.of_loaded, hlen, hfill, hfound⟩)

/-- `write` returns when the parent has a free slot and the size fits `n_cluster`, or fewer cells are
empty than `n_cluster`. -/
theorem write_returns (newDir : FAT32DirectoryTable) {s : Fs} {r : FAT32DriverRequest}
    (hslot : ∃ n, ¬ (tableAt s (clusterIndex r.parent_cluster_number) n).InUse)
    (hsize : (r.buffer_size = 0 ∨ SizeOk r.buffer_size) ∨
      (emptyCells s.cluster_map).length < n_cluster r.buffer_size) : ∃ reply, write newDir s r = .ok reply := by
  by_cases hname : r.name = 0
  · exact ⟨_, by rw [write, if_pos (by simpa using hname)]⟩
  by_cases hparent : r.parent_cluster_number.toNat < 2
  · exact ⟨_, by rw [write, if_neg (by simpa using hname), if_pos hparent]⟩
  rw [write_eq newDir s r hname (by omega) rfl]
  split_ifs with hsame h0
  · exact ⟨_, rfl⟩
  all_goals
    split
    · -- the search for a free slot does not fail
      rename_i hn
      obtain ⟨n, hn'⟩ := hslot
      have := Fin.find?_eq_none_iff.mp hn n
      exact absurd (show (_ : UInt8) = _ by simpa using this) hn'
  · exact ⟨_, rfl⟩
  · rename_i n _
    rw [write_file, find_file_cells_eq]
    split_ifs with hlen
    · exact ⟨_, rfl⟩
    · rw [List.length_take, not_lt] at hlen
      have hcells : n_cluster r.buffer_size ≤ (emptyCells s.cluster_map).length :=
        hlen.trans (Nat.min_le_right _ _)
      have hok : SizeOk r.buffer_size := (hsize.resolve_right (not_lt.mpr hcells)).resolve_left h0
      have hpos : 1 ≤ n_cluster r.buffer_size ∧ r.buffer_size.toNat ≤ n_cluster r.buffer_size * 2048 := by
        rw [n_cluster_eq hok]
        have := hok.1
        unfold clustersFor
        omega
      obtain ⟨c, cs, hcs⟩ : ∃ c cs,
          (emptyCells (loaded s (clusterIndex r.parent_cluster_number)).cluster_map).take
            (n_cluster r.buffer_size) = c :: cs :=
        List.exists_cons_of_length_pos (by rw [List.length_take]; omega)
      have hfit : r.buffer_size.toNat ≤ (c :: cs).length * 2048 := by
        rw [← hcs, List.length_take, Nat.min_eq_left (by omega)]
        exact hpos.2
      obtain ⟨s₁, hs₁⟩ := store_clusters_ok r.buf (i := 0) { loaded s
        (clusterIndex r.parent_cluster_number) with driver_state.cluster_buf := 0 } hfit
      simp only [hcs, hs₁]
      exact ⟨_, rfl⟩

/-- **`write` succeeds** when nothing speaks against it. -/
theorem write_ok (newDir : FAT32DirectoryTable) {s : Fs} {r : FAT32DriverRequest} (hname : r.name ≠ 0)
    (hparent : 2 ≤ r.parent_cluster_number.toNat)
    (hfresh : FreshName (tableAt s (clusterIndex r.parent_cluster_number)) r.name)
    (hslot : ∃ n, ¬ (tableAt s (clusterIndex r.parent_cluster_number) n).InUse)
    (hsize : r.buffer_size = 0 ∨ SizeOk r.buffer_size)
    (hcells : cellsNeeded r.buffer_size ≤ (emptyCells s.cluster_map).length) :
    ∃ s', write newDir s r = .ok (0, s') := by
  obtain ⟨⟨code, s'⟩, h⟩ := write_returns newDir hslot (.inl hsize)
  rcases write_cases h with ⟨hr, -⟩ | ⟨rfl, -⟩ | ⟨rfl, -⟩
  · cases hr with
    | unnamed h0 => exact absurd h0 hname
    | parent hlt => omega
    | taken hf => exact absurd hfresh hf
    | full hlt => omega
  · exact ⟨s', h⟩
  · exact ⟨s', h⟩

/-! ## `delete` -/

/-- The effect of a `delete` that returns 0: slot `i` of cluster `P` is cleared, the cells `l`
become empty and their clusters zero. -/
structure Removed (s s' : Fs) (P : ℕ) (i : Fin 64) (l : List ℕ) : Prop where
  map : ∀ k, cell s'.cluster_map k = if k ∈ l then 0 else cell s.cluster_map k
  disk : ∀ k, clusterAt s'.disk k =
    if k = P then tableLayout.encode (Function.update (tableAt s P) i 0)
    else if k = 1 then fatLayout.encode s'.cluster_map
    else if k ∈ l then 0 else clusterAt s.disk k

/-- Slot `i` is the first one with the key of the request. -/
def FoundAt (t : FAT32DirectoryTable) (r : FAT32DriverRequest) (i : Fin 64) : Prop :=
  (List.finRange 64).tail.find? (fun i => keyMatches r (t i)) = some i

theorem keyMatches_iff {r : FAT32DriverRequest} {e : FAT32DirectoryEntry} :
    keyMatches r e = true ↔ e.name = r.name ∧ e.ext = r.ext := by
  rw [keyMatches, Bool.and_eq_true, sameBytes_iff, sameBytes_iff, eq_comm, @eq_comm _ r.ext]

theorem FoundAt.spec {t : FAT32DirectoryTable} {r : FAT32DriverRequest} {i : Fin 64}
    (h : FoundAt t r i) : i ≠ 0 ∧ (t i).name = r.name ∧ (t i).ext = r.ext :=
  ⟨mem_slots.mp (List.mem_of_find?_eq_some h),
    keyMatches_iff.mp (List.find?_some (p := fun i => keyMatches r (t i)) h)⟩

theorem exists_foundAt {t : FAT32DirectoryTable} {r : FAT32DriverRequest} {i : Fin 64} (hi : i ≠ 0)
    (h : (t i).name = r.name ∧ (t i).ext = r.ext) : ∃ j, FoundAt t r j := by
  rcases hf : (List.finRange 64).tail.find? fun i => keyMatches r (t i) with _ | j
  · exact absurd (keyMatches_iff.mpr h) (List.find?_eq_none.mp hf i (mem_slots.mpr hi))
  · exact ⟨j, hf⟩

theorem Removed.of_freed {s s₁ : Fs} {l : List ℕ} {P : UInt32} {i : Fin 64} (h : Freed l s s₁) :
    Removed s (store_tables s₁ (Function.update (tableAt s (clusterIndex P)) i 0) P) (clusterIndex P)
      i l where
  map := h.map
  disk k := by
    rw [clusterAt_store_tables, h.disk]
    rfl

/-- `delete` of a key that no entry has. -/
theorem delete_miss (fuel : ℕ) {s : Fs} {r : FAT32DriverRequest}
    (h : r.name = 0 ∨ ∀ i, i ≠ 0 → ¬ ((tableAt s (clusterIndex r.parent_cluster_number) i).name = r.name ∧
      (tableAt s (clusterIndex r.parent_cluster_number) i).ext = r.ext)) :
    delete fuel s r = .ok (-1, s) := by
  by_cases hname : r.name = 0
  · rw [delete, if_pos (by simpa using hname)]
  · have hnone : (List.finRange 64).tail.find? (fun i => keyMatches r
        (tableAt s (clusterIndex r.parent_cluster_number) i)) = none :=
      List.find?_eq_none.mpr fun i hi hk =>
        h.resolve_left hname i (mem_slots.mp hi) (keyMatches_iff.mp hk)
    rw [delete, if_neg (by simpa using hname), read_clusters_eq]
    simp only [tableAt] at hnone
    simp only [hnone]

section

variable {s : Fs} {r : FAT32DriverRequest} {P : ℕ} {i : Fin 64}
  (hP : clusterIndex r.parent_cluster_number = P) (hname : r.name ≠ 0) (hi : FoundAt (tableAt s P) r i)

include hP hname hi

/-- `delete` past the search for the entry. -/
theorem delete_eq (fuel : ℕ) : delete fuel s r =
    if (tableAt s P i).attr = ATTR_SUBDIRECTORY then
      if scan_folder (tableAt s (clusterIndex (tableAt s P i).cluster)) > 1 then .ok (2, s)
      else if (tableAt s P i).cluster.toNat < 512 then
        .ok (0, store_tables (freeOne s (tableAt s P i).cluster.toNat)
          (Function.update (tableAt s P) i 0) r.parent_cluster_number)
      else .error .outOfBounds
    else (free_chain fuel (tableAt s P i).cluster s).map fun s₁ =>
      (0, store_tables s₁ (Function.update (tableAt s P) i 0) r.parent_cluster_number) := by
  subst hP
  unfold FoundAt at hi
  rw [delete, if_neg (by simpa using hname), read_clusters_eq, ← tableAt]
  simp only [hi, read_clusters_eq, freeOne, UInt32.ofNat_toNat]
  rcases free_chain fuel (tableAt s (clusterIndex r.parent_cluster_number) i).cluster s with t | s₁
  · rfl
  · rfl

theorem delete_folder_full (fuel : ℕ) (hattr : (tableAt s P i).attr = ATTR_SUBDIRECTORY)
    (hscan : scan_folder (tableAt s (clusterIndex (tableAt s P i).cluster)) > 1) :
    delete fuel s r = .ok (2, s) := by
  rw [delete_eq hP hname hi, if_pos hattr, if_pos hscan]

theorem delete_folder (fuel : ℕ) (hattr : (tableAt s P i).attr = ATTR_SUBDIRECTORY)
    (hscan : ¬ scan_folder (tableAt s (clusterIndex (tableAt s P i).cluster)) > 1)
    (hc : (tableAt s P i).cluster.toNat < 512) :
    ∃ s', delete fuel s r = .ok (0, s') ∧ Removed s s' P i [(tableAt s P i).cluster.toNat] := by
  have h := delete_eq hP hname hi fuel
  rw [if_pos hattr, if_neg hscan, if_pos hc] at h
  subst hP
  exact ⟨_, h, .of_freed (freed_one s hc)⟩

theorem delete_file {fuel : ℕ} (hattr : (tableAt s P i).attr ≠ ATTR_SUBDIRECTORY) {l : List ℕ}
    (hl : FatChain s.cluster_map (tableAt s P i).cluster.toNat l) (hlt : ∀ k ∈ l, k < 512)
    (hfuel : l.length ≤ fuel) :
    ∃ s', delete fuel s r = .ok (0, s') ∧ Removed s s' P i l := by
  obtain ⟨s₁, h1, h2⟩ := free_chain_spec hl hlt hfuel rfl
  have h := delete_eq hP hname hi fuel
  rw [if_neg hattr, h1] at h
  subst hP
  exact ⟨_, h, .of_freed h2⟩

end

/-- **What `delete` returns**: -1 when it finds no entry, 2 for a folder that is not empty, and 0 else. It
changes nothing but for 0. -/
theorem delete_cases {fuel : ℕ} {s s' : Fs} {r : FAT32DriverRequest} {code : ℤ}
    (h : delete fuel s r = .ok (code, s')) :
    (¬ (r.name ≠ 0 ∧ ∃ i, FoundAt (tableAt s (clusterIndex r.parent_cluster_number)) r i) ∧ code = -1 ∧ s' = s) ∨
    ((r.name ≠ 0 ∧ ∃ i, FoundAt (tableAt s (clusterIndex r.parent_cluster_number)) r i) ∧
      (code = 2 ∧ s' = s ∨ code = 0)) := by
  by_cases hfound : r.name ≠ 0 ∧ ∃ i, FoundAt (tableAt s (clusterIndex r.parent_cluster_number)) r i
  · refine .inr ⟨hfound, ?_⟩
    obtain ⟨hname, i, hi⟩ := hfound
    rw [delete_eq rfl hname hi] at h
    split_ifs at h
    · obtain ⟨rfl, rfl⟩ := Prod.mk.inj (Except.ok.inj h)
      exact .inl ⟨rfl, rfl⟩
    · exact .inr (Prod.mk.inj (Except.ok.inj h)).1.symm
    · -- the file branch returns 0 only
      rcases h1 : free_chain fuel (tableAt s (clusterIndex r.parent_cluster_number) i).cluster s with t | s₁
      · rw [h1] at h
        exact absurd h (by simp [Except.map])
      · rw [h1] at h
        exact .inr (Prod.mk.inj (Except.ok.inj h)).1.symm
  · refine .inl ⟨hfound, ?_⟩
    rw [delete_miss fuel (or_iff_not_imp_left.mpr fun hname i hi hm =>
      hfound ⟨hname, exists_foundAt hi hm⟩)] at h
    obtain ⟨rfl, rfl⟩ := Prod.mk.inj (Except.ok.inj h)
    exact ⟨rfl, rfl⟩

/-- More fuel does not change what the freeing loop returns. -/
theorem free_chain_mono {f g : ℕ} {c : UInt32} {s s' : Fs} (h : free_chain f c s = .ok s')
    (hfg : f ≤ g) : free_chain g c s = .ok s' := by
  induction f generalizing g c s with
  | zero => simp [free_chain] at h
  | succ f ih =>
    obtain ⟨g, rfl⟩ : ∃ k, g = k + 1 := ⟨g - 1, by omega⟩
    simp only [free_chain] at h ⊢
    split_ifs at h ⊢
    · exact ih h (by omega)
    · exact h

theorem delete_mono {f g : ℕ} {s : Fs} {r : FAT32DriverRequest} {reply : ℤ × Fs}
    (h : delete f s r = .ok reply) (hfg : f ≤ g) : delete g s r = .ok reply := by
  by_cases hname : r.name = 0
  · rw [delete_miss _ (.inl hname)] at h ⊢
    exact h
  by_cases hi : ∃ i, FoundAt (tableAt s (clusterIndex r.parent_cluster_number)) r i
  · obtain ⟨i, hi⟩ := hi
    rw [delete_eq rfl hname hi] at h ⊢
    split_ifs at h ⊢
    · exact h
    · exact h
    · rcases h1 : free_chain f (tableAt s (clusterIndex r.parent_cluster_number) i).cluster s with _ | s₁
      · rw [h1] at h
        exact absurd h (by simp [Except.map])
      · rw [h1] at h
        rw [free_chain_mono h1 hfg]
        exact h
  · rw [delete_miss _ (.inr fun i hi0 hm => hi (exists_foundAt hi0 hm))] at h ⊢
    exact h

/-! ## `read` -/

/-- The number of clusters `read` asks for never exceeds what its buffer holds. -/
theorem clusters_to_read_lt (size : UInt32) :
    (size.toNat + 2047) % 2 ^ 32 / 2048 * 2048 < size.toNat + 2048 := by
  have := Nat.div_mul_le_self ((size.toNat + 2047) % 2 ^ 32) 2048
  omega

theorem read_scan_miss (s : Fs) (r : FAT32DriverRequest) (t : FAT32DirectoryTable) (buf : Buffer) :
    ∀ {slots : List (Fin 64)}, (∀ i ∈ slots, keyMatches r (t i) = false) →
      read_scan s r t slots buf = .ok (3, buf)
  | [], _ => rfl
  | i :: slots, h => by
    rw [read_scan, h i (by simp), if_neg (by simp)]
    exact read_scan_miss s r t buf fun j hj => h j (List.mem_cons_of_mem _ hj)

/-- `read` of a key that no entry has. -/
theorem read_miss {s : Fs} {r : FAT32DriverRequest} (hname : r.name ≠ 0) (hsize : r.buffer_size ≠ 0)
    (h : ∀ i, i ≠ 0 → ¬ ((tableAt s (clusterIndex r.parent_cluster_number) i).name = r.name ∧
      (tableAt s (clusterIndex r.parent_cluster_number) i).ext = r.ext)) :
    read s r = .ok (3, r.buf) := by
  rw [read, if_neg (by simpa using hname), if_neg hsize]
  refine read_scan_miss s r _ r.buf fun i hi => ?_
  rw [Bool.eq_false_iff, Ne, keyMatches_iff, read_clusters_eq]
  exact h i (mem_slots.mp hi)

theorem read_scan_hit {s : Fs} {r : FAT32DriverRequest} {t : FAT32DirectoryTable} {buf buf' : Buffer}
    {total : ℕ} {i : Fin 64} {slots : List (Fin 64)}
    (hi : slots.find? (fun i => keyMatches r (t i)) = some i)
    (hread : read_chain s ((r.buffer_size.toNat + 2047) % 2 ^ 32 / 2048) r.buffer_size.toNat
      (t i).cluster 0 buf = .ok (total, buf'))
    (htotal : total / 2048 = r.buffer_size.toNat / 2048) :
    read_scan s r t slots buf = .ok (0, buf') := by
  induction slots with
  | nil => simp at hi
  | cons j slots ih =>
    rw [read_scan]
    by_cases hj : keyMatches r (t j)
    · rw [List.find?_cons_of_pos (p := fun i => keyMatches r (t i)) hj] at hi
      obtain rfl := Option.some.inj hi
      rw [if_pos hj]
      simp only [hread, htotal, if_true]
    · rw [List.find?_cons_of_neg (p := fun i => keyMatches r (t i)) hj] at hi
      rw [if_neg hj]
      exact ih hi

/-- **`read` of a file with its own size** returns 0 and the clusters of its chain. -/
theorem read_hit {s : Fs} {r : FAT32DriverRequest} {P : ℕ} {i : Fin 64} {l : List ℕ}
    (hP : clusterIndex r.parent_cluster_number = P) (hname : r.name ≠ 0) (hsize : SizeOk r.buffer_size)
    (hi : FoundAt (tableAt s P) r i)
    (hl : FatChain s.cluster_map (tableAt s P i).cluster.toNat l) (hlt : ∀ k ∈ l, k < 512)
    (hlen : l.length = clustersFor r.buffer_size.toNat) :
    read s r = .ok (0, copyChain s.disk l l.length 0 r.buf) := by
  subst hP
  have hmod : (r.buffer_size.toNat + 2047) % 2 ^ 32 / 2048 = l.length := by
    rw [hlen, Nat.mod_eq_of_lt (by have := hsize.2; omega)]
    rfl
  have h0 := hsize.ne_zero
  have hchain := read_chain_spec s hl hlt (clusters_to_read_lt r.buffer_size) rfl 0 r.buf
  rw [hmod, Nat.min_self] at hchain
  rw [read, if_neg (by simpa using hname), if_neg h0, read_clusters_eq]
  refine read_scan_hit hi (by rw [hmod]; exact hchain) ?_
  rw [Nat.zero_add, Nat.min_eq_left]
  rw [hlen]
  unfold clustersFor
  omega

/-- The scan returns when the reading loop does, for every entry with the key. -/
theorem read_scan_returns {s : Fs} {r : FAT32DriverRequest} {t : FAT32DirectoryTable} :
    ∀ {slots : List (Fin 64)} (_ : ∀ i ∈ slots, keyMatches r (t i) = true → ∀ buf, ∃ out,
      read_chain s ((r.buffer_size.toNat + 2047) % 2 ^ 32 / 2048) r.buffer_size.toNat (t i).cluster 0 buf =
        .ok out) (buf : Buffer), ∃ reply, read_scan s r t slots buf = .ok reply
  | [], _, _ => ⟨_, rfl⟩
  | i :: slots, h, buf => by
    have ih := read_scan_returns fun j hj => h j (List.mem_cons_of_mem _ hj)
    rw [read_scan]
    split_ifs with hk
    · obtain ⟨⟨total, buf'⟩, hread⟩ := h i (by simp) hk buf
      simp only [hread]
      split_ifs
      · exact ⟨_, rfl⟩
      · exact ⟨_, rfl⟩
      · exact ih _
    · exact ih _

/-- `read` returns when the reading loop does, for every entry with the key. -/
theorem read_returns_of_chains {s : Fs} {r : FAT32DriverRequest}
    (h : ∀ i, i ≠ 0 → keyMatches r (tableAt s (clusterIndex r.parent_cluster_number) i) = true → r.name ≠ 0 →
      ∀ buf, ∃ out, read_chain s ((r.buffer_size.toNat + 2047) % 2 ^ 32 / 2048) r.buffer_size.toNat
        (tableAt s (clusterIndex r.parent_cluster_number) i).cluster 0 buf = .ok out) :
    ∃ reply, read s r = .ok reply := by
  rw [read]
  split_ifs with hname h0
  · exact ⟨_, rfl⟩
  · exact ⟨_, rfl⟩
  · refine read_scan_returns (fun i hi hk => ?_) r.buf
    rw [read_clusters_eq] at hk ⊢
    exact h i (mem_slots.mp hi) hk (by simpa using hname)

/-- `read` returns when the entries with its key head chains. -/
theorem read_returns {s : Fs} {r : FAT32DriverRequest}
    (h : ∀ i, i ≠ 0 → (tableAt s (clusterIndex r.parent_cluster_number) i).name = r.name →
      r.name ≠ 0 → ∃ l, FatChain s.cluster_map
        (tableAt s (clusterIndex r.parent_cluster_number) i).cluster.toNat l ∧ ∀ k ∈ l, k < 512) :
    ∃ reply, read s r = .ok reply := by
  refine read_returns_of_chains fun i hi hk hname buf => ?_
  obtain ⟨l, hl, hlt⟩ := h i hi (keyMatches_iff.mp hk).1 hname
  exact ⟨_, read_chain_spec s hl hlt (clusters_to_read_lt r.buffer_size) rfl 0 buf⟩

end KeropOS
