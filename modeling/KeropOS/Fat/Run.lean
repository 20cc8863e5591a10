import KeropOS.Fat.Tree
import KeropOS.Lib.Transition

/-!
# Runs of the file system

* `boot`: the state after `create_fat32`;
* `Legal`: what a caller keeps to, `Step`: one call;
* **`write_legal`**, **`delete_legal`**: a legal call adds an entry, clears one, or changes nothing;
* **`inv_of_run`**: the invariant holds in every state of every run;
* **`legal_returns`**: a legal call returns; **`write_succeeds`**: a `write` of a new name succeeds.
-/

namespace KeropOS

open Packed Linked Transition

/-- The state after `create_fat32` on a drive with any content. -/
def boot (d : Disk) : Fs :=
  create_fat32 { disk := d, driver_state := { cluster_map := 0, dir_table_buf := 0, cluster_buf := 0 } }

/-! ## Calls -/

/-- The parent is a live directory; a `write` finds a free slot in it, for a folder or a file of 1
to 255 clusters. -/
def Legal (s : Fs) : Call → Prop
  | .write r => Live s r.parent_cluster_number.toNat ∧
      (∃ n, ¬ (tableAt s r.parent_cluster_number.toNat n).InUse) ∧
      (r.buffer_size = 0 ∨ SizeOk r.buffer_size)
  | .delete r | .read r | .read_directory r => Live s r.parent_cluster_number.toNat

/-- A legal call and its reply. -/
def Step (s : Fs) (event : Call × Reply) (s' : Fs) : Prop :=
  Legal s event.1 ∧ ∃ fuel, exec fuel s event.1 = .ok (event.2, s')

/-! ## The invariant after `create_fat32` -/

theorem boot_map (d : Disk) : (boot d).cluster_map =
    setCell (setCell (setCell 0 0 CLUSTER_0_VALUE) 1 CLUSTER_1_VALUE) 2 FAT32_FAT_END_OF_FILE := rfl

theorem boot_disk (d : Disk) (k : ℕ) : clusterAt (boot d).disk k =
    if k = 2 then tableLayout.encode (Function.update (0 : FAT32DirectoryTable) 0 (folderEntry root_name 0 2))
    else if k = 1 then fatLayout.encode (boot d).cluster_map
    else clusterAt (write_blocks d 0 1 fs_signature) k := by
  rw [boot, create_fat32, clusterAt_write_clusters, clusterAt_write_clusters, init_directory_table_eq]
  rfl

theorem boot_root (d : Disk) : tableAt (boot d) 2 =
    Function.update (0 : FAT32DirectoryTable) 0 (folderEntry root_name 0 2) := by
  rw [tableAt, boot_disk, if_pos rfl]
  exact Layout.decode_encode _ _

theorem boot_slot (d : Disk) {i : Fin 64} (hi : i ≠ 0) : tableAt (boot d) 2 i = 0 := by
  rw [boot_root, Function.update_of_ne hi]
  rfl

/-- The root is the only directory. -/
theorem boot_live (d : Disk) {p : ℕ} (h : Live (boot d) p) : p = 2 := by
  induction h with
  | root => rfl
  | sub _ hi hu _ ih =>
    subst ih
    rw [boot_slot d hi] at hu
    exact absurd hu not_inUse_zero

theorem boot_not_held (d : Disk) {p : ℕ} {i : Fin 64} : ¬ Held (boot d) p i := by
  rintro ⟨hl, hi, hu⟩
  obtain rfl := boot_live d hl
  rw [boot_slot d hi] at hu
  exact not_inUse_zero hu

theorem inv_boot (d : Disk) : Inv (boot d) where
  signature := by
    rw [← read_write_block_zero d fs_signature]
    funext i
    rw [read_block_zero, boot_disk, if_neg (by omega), if_neg (by omega), ← read_block_zero]
  fat := by rw [boot_disk, if_neg (by omega), if_pos rfl]
  root := by rw [boot_map, cell_setCell_self _ (by omega)]
  self hp := by
    obtain rfl := boot_live d hp
    rw [boot_root, Function.update_self]
    rfl
  free {p i} hp hu := by
    obtain rfl := boot_live d hp
    refine boot_slot d ?_
    rintro rfl
    rw [boot_root, Function.update_self] at hu
    exact hu rfl
  sound h := absurd h (boot_not_held d)
  disjoint h := absurd h (boot_not_held d)
  names h := absurd h (boot_not_held d)

/-! ## States with the same files -/

/-- The drive and the cluster map are the same; the driver's buffers may differ. -/
structure SameFiles (s s' : Fs) : Prop where
  disk : s'.disk = s.disk
  map : s'.cluster_map = s.cluster_map

namespace SameFiles

variable {s s' : Fs} {p : ℕ} {i : Fin 64} {l : List ℕ}

theorem tableAt (h : SameFiles s s') : tableAt s' p = KeropOS.tableAt s p := by
  rw [KeropOS.tableAt, KeropOS.tableAt, h.disk]

theorem symm (h : SameFiles s s') : SameFiles s' s := ⟨h.disk.symm, h.map.symm⟩

theorem live (h : SameFiles s s') (hp : Live s p) : Live s' p := by
  induction hp with
  | root => exact .root
  | sub _ hi hu ha ih =>
    rw [← h.tableAt] at hu ha ⊢
    exact .sub ih hi hu ha

theorem held (h : SameFiles s s') (hp : Held s p i) : Held s' p i :=
  ⟨h.live hp.live, hp.slot, by rw [h.tableAt]; exact hp.inUse⟩

theorem chain (h : SameFiles s s') : Chain s' p i l ↔ Chain s p i l := by
  rw [Chain, Chain, h.tableAt, h.map]

theorem inv (h : SameFiles s s') (hs : Inv s) : Inv s' where
  signature := by rw [h.disk]; exact hs.signature
  fat := by rw [h.disk, h.map]; exact hs.fat
  root := by rw [h.map]; exact hs.root
  self hp := by rw [h.tableAt]; exact hs.self (h.symm.live hp)
  free hp hu := by rw [h.tableAt] at hu ⊢; exact hs.free (h.symm.live hp) hu
  sound hp := by
    obtain ⟨l, hl⟩ := hs.sound (h.symm.held hp)
    refine ⟨l, ?_, h.chain.mpr hl.chain, hl.bounds, ?_⟩
    · rw [h.tableAt]; exact hl.name
    · rw [h.tableAt, h.tableAt]; exact hl.kind
  disjoint hp hq hl hl' := hs.disjoint (h.symm.held hp) (h.symm.held hq) (h.chain.mp hl) (h.chain.mp hl')
  names hp hq he := by
    rw [h.tableAt] at he
    exact hs.names (h.symm.held hp) (h.symm.held hq) he

end SameFiles

/-! ## Calls that change nothing -/

namespace Untouched

variable {s s' : Fs} {p : ℕ} {i : Fin 64} {l : List ℕ}

theorem sameFiles (h : Untouched s s') : SameFiles s s' := ⟨h.disk, h.map⟩

theorem tableAt (h : Untouched s s') : tableAt s' p = KeropOS.tableAt s p := h.sameFiles.tableAt

theorem symm (h : Untouched s s') : Untouched s' s := ⟨h.disk.symm, h.map.symm, h.dir_table_buf.symm⟩

theorem live (h : Untouched s s') (hp : Live s p) : Live s' p := h.sameFiles.live hp

theorem held (h : Untouched s s') (hp : Held s p i) : Held s' p i := h.sameFiles.held hp

theorem chain (h : Untouched s s') : Chain s' p i l ↔ Chain s p i l := h.sameFiles.chain

theorem inv (h : Untouched s s') (hs : Inv s) : Inv s' := h.sameFiles.inv hs

end Untouched

/-! ## What a legal call does -/

/-- The entry is the one the request asks for, and `data` holds the bytes of its buffer. -/
def Asked (r : FAT32DriverRequest) (e : FAT32DirectoryEntry) (cs : List ℕ) (data : ℕ → Cluster) : Prop :=
  (r.buffer_size = 0 ∧ e = folderEntry r.name 0 e.cluster) ∨
    (SizeOk r.buffer_size ∧ e = fileEntry r.name r.ext r.buffer_size e.cluster ∧
      ∀ j (h : j < cs.length),
        data cs[j] = chunk r.buf (j * 2048) (min 2048 (r.buffer_size.toNat - j * 2048)))

variable {s s' : Fs} {r : FAT32DriverRequest} {fuel : ℕ} {reply : Reply}

theorem WriteOk.slot_ne_zero {n : Fin 64} {P : ℕ} (h : WriteOk s r n) (hs : Inv s)
    (hP : clusterIndex r.parent_cluster_number = P) (hlive : Live s P) : n ≠ 0 := by
  rintro rfl
  exact h.slot.1 (hP ▸ hs.self hlive)

theorem WroteFolder.added {newDir : FAT32DirectoryTable} {n : Fin 64} {i P : ℕ}
    (h : WroteFolder newDir s s' r n i) (hs : Inv s) (hnew : ∀ j, j ≠ 0 → newDir j = 0)
    (hsize : r.buffer_size = 0) (hP : r.parent_cluster_number.toNat = P) (hlive : Live s P) :
    ∃ e cs data, Added s s' P n e cs data ∧ Asked r e cs data := by
  have hidx : clusterIndex r.parent_cluster_number = P := by
    rw [clusterIndex_of_lt (hP ▸ (hs.live_bounds hlive).2), hP]
  have hvac : ¬ (tableAt s P n).InUse := hidx ▸ h.ok.slot.1
  have ha := h.alloc
  rw [hidx, hs.free hlive hvac] at ha
  refine ⟨_, _, _, ⟨ha, hlive, h.ok.slot_ne_zero hs hidx hlive, hvac, rfl, h.ok.name, hidx ▸ h.ok.fresh,
    .inr ⟨⟨?_, rfl, ?_⟩, fun j hj => ?_⟩⟩, .inl ⟨hsize, ?_⟩⟩
  · rw [cluster_folderEntry]
    rfl
  · rw [Layout.decode_encode, Function.update_self, ← hP, UInt32.ofNat_toNat]
    rfl
  · rw [Layout.decode_encode, Function.update_of_ne hj]
    exact hnew j hj
  · rw [cluster_folderEntry]
    rfl

theorem WroteFile.added {n : Fin 64} {cs : List ℕ} {data : ℕ → Cluster} {P : ℕ}
    (h : WroteFile s s' r n cs data) (hs : Inv s) (hsize : SizeOk r.buffer_size)
    (hP : r.parent_cluster_number.toNat = P) (hlive : Live s P) :
    ∃ e cs data, Added s s' P n e cs data ∧ Asked r e cs data := by
  have hidx : clusterIndex r.parent_cluster_number = P := by
    rw [clusterIndex_of_lt (hP ▸ (hs.live_bounds hlive).2), hP]
  have ha := h.alloc
  rw [hidx] at ha
  refine ⟨_, _, _, ⟨ha, hlive, h.ok.slot_ne_zero hs hidx hlive, hidx ▸ h.ok.slot.1, rfl, h.ok.name,
    hidx ▸ h.ok.fresh, .inl ⟨?_, hsize, ?_⟩⟩, .inr ⟨hsize, ?_, h.filled⟩⟩
  · rw [cluster_fileEntry]
    rfl
  · rw [h.length, n_cluster_eq hsize]
    rfl
  · rw [cluster_fileEntry]

/-- A `write` into a live directory adds the entry asked for in the first free slot, or changes
nothing. -/
theorem write_live {newDir : FAT32DirectoryTable} {code : ℤ} (hs : Inv s)
    (hlive : Live s r.parent_cluster_number.toNat)
    (hnew : r.buffer_size = 0 → code = 0 → ∀ j, j ≠ 0 → newDir j = 0) (h : write newDir s r = .ok (code, s')) :
    (Refused s r code ∧ Untouched s s') ∨ (code = 0 ∧ ∃ n e cs data,
      FirstFree (tableAt s r.parent_cluster_number.toNat) n ∧
      Added s s' r.parent_cluster_number.toNat n e cs data ∧ Asked r e cs data) := by
  have hidx := clusterIndex_of_lt (hs.live_bounds hlive).2
  rcases write_cases h with ⟨hc, hu⟩ | ⟨rfl, hsize, n, i, hf⟩ | ⟨rfl, hsize, n, cs, data, hf⟩
  · exact .inl ⟨hc, hu⟩
  · have hslot := hf.ok.slot
    rw [hidx] at hslot
    obtain ⟨e, cs, data, ha, hask⟩ := hf.added hs (hnew hsize rfl) hsize rfl hlive
    exact .inr ⟨rfl, n, e, cs, data, hslot, ha, hask⟩
  · have hslot := hf.ok.slot
    rw [hidx] at hslot
    obtain ⟨e, cs, data, ha, hask⟩ := hf.added hs hsize rfl hlive
    exact .inr ⟨rfl, n, e, cs, data, hslot, ha, hask⟩

/-- **A legal `write`** adds the entry asked for and returns 0, or changes nothing. -/
theorem write_legal (hs : Inv s) (hlegal : Legal s (.write r))
    (h : exec fuel s (.write r) = .ok (reply, s')) :
    (Refused s r reply.code ∧ Untouched s s') ∨ (reply.code = 0 ∧
      ∃ n e cs data, Added s s' r.parent_cluster_number.toNat n e cs data ∧ Asked r e cs data) := by
  rw [exec] at h
  split at h
  · exact absurd h (by simp)
  · rename_i code s₁ hw
    obtain ⟨rfl, rfl⟩ := Prod.mk.inj (Except.ok.inj h)
    rcases write_live hs hlegal.1 (fun _ _ _ _ => rfl) hw with hr | ⟨rfl, n, e, cs, data, -, ha, hask⟩
    · exact .inl hr
    · exact .inr ⟨rfl, n, e, cs, data, ha, hask⟩

/-- The slot `delete` finds holds an entry. -/
theorem FoundAt.held {P : ℕ} {i : Fin 64} (h : FoundAt (tableAt s P) r i) (hs : Inv s)
    (hlive : Live s P) (hname : r.name ≠ 0) : Held s P i := by
  obtain ⟨hi, hn, -⟩ := h.spec
  refine ⟨hlive, hi, by_contra fun hu => hname ?_⟩
  rw [← hn, hs.free hlive hu]
  rfl

/-- **`delete` of an entry**, run with enough fuel for every chain. -/
theorem delete_held {P : ℕ} {i : Fin 64} (hs : Inv s) (hP : r.parent_cluster_number.toNat = P)
    (hp : Held s P i) (hn : (tableAt s P i).name = r.name) (he : (tableAt s P i).ext = r.ext)
    (hempty : (tableAt s P i).attr = ATTR_SUBDIRECTORY →
      ¬ scan_folder (tableAt s (tableAt s P i).cluster.toNat) > 1) :
    ∃ s' l, delete 512 s r = .ok (0, s') ∧ FoundAt (tableAt s P) r i ∧ Cleared s s' P i l := by
  have hidx : clusterIndex r.parent_cluster_number = P := by
    rw [clusterIndex_of_lt (hP ▸ (hs.live_bounds hp.live).2), hP]
  obtain ⟨l, hl⟩ := hs.sound hp
  have hname : r.name ≠ 0 := hn ▸ hl.name
  obtain ⟨j, hi⟩ := exists_foundAt hp.slot ⟨hn, he⟩
  -- the first entry with the key is the only one
  obtain rfl := hs.names (hi.held hs hp.live hname) hp (hi.spec.2.1.trans hn.symm)
  by_cases hattr : (tableAt s P j).attr = ATTR_SUBDIRECTORY
  · have hsnd := hs.isFolder hp hattr
    have hlt := (hsnd.bounds _ (List.mem_singleton_self _)).2
    have hscan := hempty hattr
    rw [← clusterIndex_of_lt hlt] at hscan
    obtain ⟨s', h1, h2⟩ := delete_folder hidx hname hi 512 hattr hscan hlt
    exact ⟨s', _, h1, hi, h2, hp, hsnd⟩
  · have hlt : ∀ k ∈ l, k < 512 := fun k hk => (hl.bounds k hk).2
    obtain ⟨s', h1, h2⟩ := delete_file hidx hname hi hattr hl.chain hlt (hl.chain.length_le hlt)
    exact ⟨s', l, h1, hi, h2, hp, hl⟩

/-- **A legal `delete`**, run with enough fuel for every chain. -/
theorem delete_legal_eq (hs : Inv s) (hlive : Live s r.parent_cluster_number.toNat) :
    (∃ code, code ≠ 0 ∧ delete 512 s r = .ok (code, s)) ∨
      ∃ s' i l, delete 512 s r = .ok (0, s') ∧ FoundAt (tableAt s r.parent_cluster_number.toNat) r i ∧
        Cleared s s' r.parent_cluster_number.toNat i l ∧
        ((tableAt s r.parent_cluster_number.toNat i).attr = ATTR_SUBDIRECTORY → ¬ scan_folder
          (tableAt s (tableAt s r.parent_cluster_number.toNat i).cluster.toNat) > 1) := by
  have hidx := clusterIndex_of_lt (hs.live_bounds hlive).2
  by_cases hname : r.name = 0
  · exact .inl ⟨-1, by decide, delete_miss 512 (.inl hname)⟩
  by_cases hi : ∃ i, FoundAt (tableAt s r.parent_cluster_number.toNat) r i
  · obtain ⟨i, hi⟩ := hi
    have hheld := hi.held hs hlive hname
    by_cases hfull : (tableAt s r.parent_cluster_number.toNat i).attr = ATTR_SUBDIRECTORY ∧ scan_folder
        (tableAt s (tableAt s r.parent_cluster_number.toNat i).cluster.toNat) > 1
    · obtain ⟨hattr, hscan⟩ := hfull
      rw [← clusterIndex_of_lt ((hs.isFolder hheld hattr).bounds _ (List.mem_singleton_self _)).2] at hscan
      exact .inl ⟨2, by decide, delete_folder_full hidx hname hi 512 hattr hscan⟩
    · have hscan := fun hattr hscan => hfull ⟨hattr, hscan⟩
      obtain ⟨s', l, h1, -, h2⟩ := delete_held hs rfl hheld hi.spec.2.1 hi.spec.2.2 hscan
      exact .inr ⟨s', i, l, h1, hi, h2, hscan⟩
  · refine .inl ⟨-1, by decide, delete_miss 512 (.inr fun i hi0 hm => hi ?_)⟩
    rw [hidx] at hm
    exact exists_foundAt hi0 hm

/-- **A legal `delete`** clears the entry found and returns 0, or changes nothing. -/
theorem delete_legal (hs : Inv s) (hlegal : Legal s (.delete r))
    (h : exec fuel s (.delete r) = .ok (reply, s')) :
    (reply.code ≠ 0 ∧ s' = s) ∨ (reply.code = 0 ∧ ∃ i l,
      FoundAt (tableAt s r.parent_cluster_number.toNat) r i ∧
      Cleared s s' r.parent_cluster_number.toNat i l ∧
      ((tableAt s r.parent_cluster_number.toNat i).attr = ATTR_SUBDIRECTORY → ¬ scan_folder
        (tableAt s (tableAt s r.parent_cluster_number.toNat i).cluster.toNat) > 1)) := by
  rw [exec] at h
  split at h
  · exact absurd h (by simp)
  · rename_i code s₁ hd
    obtain ⟨rfl, rfl⟩ := Prod.mk.inj (Except.ok.inj h)
    -- the same result with more fuel
    have hd := delete_mono hd (Nat.le_max_left fuel 512)
    rcases delete_legal_eq hs hlegal with ⟨code', hc, h'⟩ | ⟨s₂, i, l, h', hi, hcl, hscan⟩
    · obtain ⟨rfl, rfl⟩ := Prod.mk.inj
        (Except.ok.inj (hd.symm.trans (delete_mono h' (Nat.le_max_right fuel 512))))
      exact .inl ⟨hc, rfl⟩
    · obtain ⟨rfl, rfl⟩ := Prod.mk.inj
        (Except.ok.inj (hd.symm.trans (delete_mono h' (Nat.le_max_right fuel 512))))
      exact .inr ⟨rfl, i, l, hi, hcl, hscan⟩

theorem read_unchanged (h : exec fuel s (.read r) = .ok (reply, s')) : s' = s := by
  rw [exec] at h
  split at h
  · exact absurd h (by simp)
  · exact (Prod.mk.inj (Except.ok.inj h)).2.symm

theorem read_directory_unchanged (h : exec fuel s (.read_directory r) = .ok (reply, s')) : s' = s :=
  (Prod.mk.inj (Except.ok.inj h)).2.symm

/-! ## Runs -/

/-- **A step keeps the invariant.** -/
theorem inv_step (s : Fs) (event : Call × Reply) (s' : Fs) (hs : Inv s) (h : Step s event s') :
    Inv s' := by
  obtain ⟨call, reply⟩ := event
  obtain ⟨hlegal, fuel, hexec⟩ := h
  cases call with
  | write r =>
    rcases write_legal hs hlegal hexec with ⟨-, hu⟩ | ⟨-, n, e, cs, data, ha, -⟩
    · exact hu.inv hs
    · exact ha.inv hs
  | delete r =>
    rcases delete_legal hs hlegal hexec with ⟨-, rfl⟩ | ⟨-, i, l, -, hcl, -⟩
    · exact hs
    · exact hcl.inv hs
  | read r =>
    obtain rfl := read_unchanged hexec
    exact hs
  | read_directory r =>
    obtain rfl := read_directory_unchanged hexec
    exact hs

/-- **The invariant holds in every state of every run.** -/
theorem inv_of_run {d : Disk} {es : List (Call × Reply)} (h : Run Step (boot d) es s) : Inv s :=
  h.invariant Inv inv_step (inv_boot d)

/-- **A legal call returns**: no access is out of bounds, and every loop ends. -/
theorem legal_returns {call : Call} (hs : Inv s) (h : Legal s call) :
    ∃ reply s', exec 512 s call = .ok (reply, s') := by
  cases call with
  | write r =>
    obtain ⟨hlive, hslot, hsize⟩ := h
    rw [← clusterIndex_of_lt (hs.live_bounds hlive).2] at hslot
    obtain ⟨⟨code, s'⟩, hw⟩ := write_returns 0 hslot (.inl hsize)
    exact ⟨_, _, by rw [exec, hw]⟩
  | delete r =>
    rcases delete_legal_eq hs h with ⟨code, -, hd⟩ | ⟨s', i, l, hd, -⟩
    · exact ⟨_, _, by rw [exec, hd]⟩
    · exact ⟨_, _, by rw [exec, hd]⟩
  | read r =>
    have hidx := clusterIndex_of_lt (hs.live_bounds h).2
    obtain ⟨⟨code, buf⟩, hr⟩ := read_returns (s := s) (r := r) fun i hi hn hname => by
      rw [hidx] at hn ⊢
      have hu : (tableAt s r.parent_cluster_number.toNat i).InUse := by_contra fun hu => hname (by
        rw [← hn, hs.free h hu]
        rfl)
      obtain ⟨l, hl⟩ := hs.sound ⟨h, hi, hu⟩
      exact ⟨l, hl.chain, fun k hk => (hl.bounds k hk).2⟩
    exact ⟨_, _, by rw [exec, hr]⟩
  | read_directory r => exact ⟨_, _, rfl⟩

/-! ## Writes that succeed -/

/-- The new cells are taken from the empty ones. -/
theorem Added.length_emptyCells {P : ℕ} {n : Fin 64} {e : FAT32DirectoryEntry} {cs : List ℕ}
    {data : ℕ → Cluster} (h : Added s s' P n e cs data) (hs : Inv s) :
    (emptyCells s'.cluster_map).length + cs.length = (emptyCells s.cluster_map).length := by
  have hdisj : ∀ k ∈ emptyCells s'.cluster_map, k ∉ cs := by
    intro k hk hm
    exact (h.chain_new hs).cell_ne_zero (fun y hy => (h.bounds hs hy).1) hm (mem_emptyCells.mp hk).2
  have hperm : (emptyCells s'.cluster_map ++ cs).Perm (emptyCells s.cluster_map) := by
    refine (List.perm_ext_iff_of_nodup (List.nodup_append'.mpr
      ⟨nodup_emptyCells _, h.nodup, fun k hk hm => hdisj k hk hm⟩) (nodup_emptyCells _)).mpr fun k => ?_
    rw [List.mem_append]
    constructor
    · rintro (hk | hk)
      · have hk' := mem_emptyCells.mp hk
        rw [h.map, cell_linkCells_of_notMem (hdisj k hk)] at hk'
        exact mem_emptyCells.mpr hk'
      · exact mem_emptyCells.mpr (h.fresh k hk)
    · intro hk
      by_cases hm : k ∈ cs
      · exact .inr hm
      · refine .inl (mem_emptyCells.mpr ?_)
        rw [h.map, cell_linkCells_of_notMem hm]
        exact mem_emptyCells.mp hk
  rw [← hperm.length_eq, List.length_append]

/-- **A legal `write` of a new name** succeeds when there are cells enough. -/
theorem write_succeeds (hs : Inv s) (hlegal : Legal s (.write r)) (hname : r.name ≠ 0)
    (hfresh : FreshName (tableAt s r.parent_cluster_number.toNat) r.name)
    (hcells : cellsNeeded r.buffer_size ≤ (emptyCells s.cluster_map).length) :
    ∃ reply s', Step s (.write r, reply) s' ∧ reply.code = 0 ∧ ∃ n e cs data,
      FirstFree (tableAt s r.parent_cluster_number.toNat) n ∧
      Added s s' r.parent_cluster_number.toNat n e cs data ∧ Asked r e cs data := by
  obtain ⟨hlive, hslot, hsize⟩ := hlegal
  have hb := hs.live_bounds hlive
  have hidx := clusterIndex_of_lt hb.2
  obtain ⟨s', hw⟩ := write_ok 0 hname hb.1 (by rwa [hidx]) (by rwa [hidx]) hsize hcells
  refine ⟨⟨0, r.buf⟩, s', ⟨⟨hlive, hslot, hsize⟩, 512, by rw [exec, hw]⟩, rfl, ?_⟩
  rcases write_live hs hlive (fun _ _ _ _ => rfl) hw with ⟨hr, -⟩ | ⟨-, h⟩
  · exact absurd rfl hr.code_ne_zero
  · exact h

/-- `delete` of a file, or of a folder that the emptiness scan takes for empty. -/
theorem delete_succeeds {P : ℕ} {i : Fin 64} (hs : Inv s) (hP : r.parent_cluster_number.toNat = P)
    (hp : Held s P i) (hn : (tableAt s P i).name = r.name) (he : (tableAt s P i).ext = r.ext)
    (hempty : (tableAt s P i).attr = ATTR_SUBDIRECTORY →
      ¬ scan_folder (tableAt s (tableAt s P i).cluster.toNat) > 1) :
    ∃ reply s', Step s (.delete r, reply) s' ∧ reply.code = 0 ∧ ∃ l, Cleared s s' P i l := by
  subst hP
  obtain ⟨s', l, h, -, hcl⟩ := delete_held hs rfl hp hn he hempty
  exact ⟨⟨0, r.buf⟩, s', ⟨hp.live, 512, by rw [exec, h]⟩, rfl, l, hcl⟩

/-! ## The first call -/

theorem emptyCells_boot (d : Disk) : emptyCells (boot d).cluster_map = List.range' 3 509 := by
  have h2 : ¬ cell (boot d).cluster_map 2 = FAT32_FAT_EMPTY_ENTRY := by
    rw [boot_map, cell_setCell_self _ (by omega)]
    decide
  rw [emptyCells, List.range'_succ, List.filter_cons, if_neg (by simpa using h2)]
  refine List.filter_eq_self.mpr fun k hk => ?_
  have hk := List.mem_range'_1.mp hk
  rw [decide_eq_true_eq, boot_map, cell_setCell_ne _ (by omega), cell_setCell_ne _ (by omega),
    cell_setCell_ne _ (by omega), cell_of_lt _ (by omega)]
  rfl

theorem FirstFree.eq_one {t : FAT32DirectoryTable} {n : Fin 64} (h : FirstFree t n)
    (h0 : (t 0).InUse) (h1 : t 1 = 0) : n = 1 := by
  have hne : n ≠ 0 := fun e => h.1 (e ▸ h0)
  have hle : ¬ (1 : Fin 64) < n := fun hlt => not_inUse_zero (h1 ▸ h.2 1 hlt)
  have : n.val ≠ 0 := fun e => hne (Fin.ext e)
  have : ¬ 1 < n.val := fun e => hle (Fin.lt_def.mpr e)
  exact Fin.ext (show n.val = 1 by omega)

theorem boot_free_slot (d : Disk) : ∃ n, ¬ (tableAt (boot d) 2 n).InUse :=
  ⟨1, by rw [boot_slot d (by decide)]; exact not_inUse_zero⟩

theorem boot_freshName (d : Disk) {name : Bytes 8} (h : name ≠ 0) : FreshName (tableAt (boot d) 2) name := by
  intro i hi hn
  rw [boot_slot d hi] at hn
  exact h hn.symm

/-- The first `write` into the root returns 0, and the entry is in slot 1. -/
theorem boot_added (d : Disk) (hP : r.parent_cluster_number = 2) (hname : r.name ≠ 0)
    (hsize : r.buffer_size = 0 ∨ SizeOk r.buffer_size) :
    ∃ reply s', Step (boot d) (.write r, reply) s' ∧ reply.code = 0 ∧
      ∃ e cs data, Added (boot d) s' 2 1 e cs data ∧ Asked r e cs data := by
  have hP : r.parent_cluster_number.toNat = 2 := congrArg UInt32.toNat hP
  have hlegal : Legal (boot d) (.write r) := by
    rw [Legal]
    rw [hP]
    exact ⟨.root, boot_free_slot d, hsize⟩
  have hfresh : FreshName (tableAt (boot d) r.parent_cluster_number.toNat) r.name := by
    rw [hP]
    exact boot_freshName d hname
  have hcells : cellsNeeded r.buffer_size ≤ (emptyCells (boot d).cluster_map).length := by
    rw [emptyCells_boot, List.length_range', cellsNeeded]
    have : n_cluster r.buffer_size < 256 := Nat.mod_lt _ (by omega)
    split_ifs <;> omega
  obtain ⟨reply, s', h, hcode, n, e, cs, data, hn, ha, hask⟩ :=
    write_succeeds (inv_boot d) hlegal hname hfresh hcells
  rw [hP] at hn ha
  obtain rfl := hn.eq_one ((inv_boot d).self .root) (boot_slot d (by decide))
  exact ⟨reply, s', h, hcode, e, cs, data, ha, hask⟩

/-- A file of five bytes in the root. -/
def firstFile : FAT32DriverRequest where
  buf a := UInt8.ofNat a
  name := ![97, 0, 0, 0, 0, 0, 0, 0]
  ext := ![116, 120, 116]
  parent_cluster_number := 2
  buffer_size := 5

theorem boot_firstFile_added (d : Disk) : ∃ reply s, Step (boot d) (.write firstFile, reply) s ∧
    reply.code = 0 ∧ ∃ e cs data, Added (boot d) s 2 1 e cs data ∧ Asked firstFile e cs data :=
  boot_added d rfl (fun h => absurd (congrFun h 0) (by decide)) (.inr ⟨by decide, by decide⟩)

theorem boot_firstFile : ∃ reply s, Step (boot 0) (.write firstFile, reply) s ∧ reply.code = 0 := by
  obtain ⟨reply, s, h, hcode, -⟩ := boot_firstFile_added 0
  exact ⟨reply, s, h, hcode⟩

/-- The root once it has the file. -/
theorem boot_firstFile_table : ∃ reply s c, Step (boot 0) (.write firstFile, reply) s ∧ reply.code = 0 ∧
    Inv s ∧ Held s 2 1 ∧ tableAt s 2 =
      Function.update (tableAt (boot 0) 2) 1 (fileEntry firstFile.name firstFile.ext 5 c) ∧
    (emptyCells s.cluster_map).length = 508 := by
  obtain ⟨reply, s, hstep, hcode, e, cs, data, ha, ⟨h0, -⟩ | ⟨-, he, -⟩⟩ := boot_firstFile_added 0
  · exact absurd h0 (by decide)
  have hs := inv_boot 0
  have hlen : cs.length = 1 := by
    rcases ha.kind with hf | ⟨hd, -⟩
    · rw [hf.cells, he]
      exact (by decide : clustersFor firstFile.buffer_size.toNat = 1)
    · exact absurd hd.attr (by rw [he]; exact attr_fileEntry _ _ _ _)
  have hcells := ha.length_emptyCells hs
  rw [emptyCells_boot, List.length_range', hlen] at hcells
  refine ⟨reply, s, e.cluster, hstep, hcode, ha.inv hs, ha.held_new hs, ?_, by omega⟩
  rw [ha.tableAt_live hs .root, if_pos rfl]
  exact congrArg _ he

end KeropOS
