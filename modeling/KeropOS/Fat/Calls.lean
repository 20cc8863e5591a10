import KeropOS.Fat.Run

/-!
# Single calls, in every state

What a call does to a directory, for every content of the disk and of the cached table.

* `KeepsEntries`: what `delete` of a folder promises, **`delete_keeps_entries_iff`**;
* `execOn`: a call with any content of `newDir`; **`failed_calls_change_nothing`**;
* `FillsOneSlot`: what `write` promises about the parent's slots, **`write_fills_one_slot_iff`**;
* `ChainFits`: what it promises about the length of the new chain, **`write_chain_fits_iff`**.
-/

namespace KeropOS

open Packed Linked Transition

variable {s s' : Fs} {r : FAT32DriverRequest} {P : ℕ} {i n : Fin 64}

/-! ## Folders with entries -/

/-- The table of the folder that slot `i` of the parent names. -/
def folderTable (s : Fs) (r : FAT32DriverRequest) (i : Fin 64) : FAT32DirectoryTable :=
  tableAt s (clusterIndex (tableAt s (clusterIndex r.parent_cluster_number) i).cluster)

/-- `delete` of the folder in slot `i` returns 0 only when it has no entry, and otherwise returns 2 and
changes nothing. -/
structure KeepsEntries (s : Fs) (r : FAT32DriverRequest) (i : Fin 64) : Prop where
  empty : ∀ fuel s', delete fuel s r = .ok (0, s') → ∀ j, j ≠ 0 → ¬ (folderTable s r i j).InUse
  refused : (∃ j, j ≠ 0 ∧ (folderTable s r i j).InUse) → ∀ fuel, ∃ s', delete fuel s r = .ok (2, s') ∧
    s'.disk = s.disk ∧ s'.cluster_map = s.cluster_map

/-- The emptiness scan looks at slot 1 only. -/
theorem scan_folder_gt_one {t : FAT32DirectoryTable} : scan_folder t > 1 ↔ (t 1).InUse := by
  unfold scan_folder
  constructor
  · intro h
    by_contra hu
    have hone : (decide (1 ≤ (1 : Fin 64).val) && (t 1).user_attribute != UATTR_NOT_EMPTY) = true := by
      simpa [FAT32DirectoryEntry.InUse] using hu
    rcases hf : Fin.find? fun j : Fin 64 => 1 ≤ j.val && (t j).user_attribute != UATTR_NOT_EMPTY with _ | j
    · have := Fin.find?_eq_none_iff.mp hf 1
      rw [hone] at this
      exact absurd this (by simp)
    · rw [hf, Option.map_some, Option.getD_some] at h
      have := (Fin.find?_eq_some_iff.mp hf).2 1 (Fin.lt_def.mpr h)
      rw [hone] at this
      exact absurd this (by simp)
  · intro hu
    rcases hf : Fin.find? fun j : Fin 64 => 1 ≤ j.val && (t j).user_attribute != UATTR_NOT_EMPTY with _ | j
    · simp
    · have hj : 1 ≤ j.val ∧ ¬ (t j).InUse := by
        simpa [FAT32DirectoryEntry.InUse] using (Fin.find?_eq_some_iff.mp hf).1
      rw [Option.map_some, Option.getD_some]
      have : j ≠ 1 := fun e => hj.2 (e ▸ hu)
      have : j.val ≠ 1 := fun e => this (Fin.ext e)
      omega

/-- **When `delete` of a folder keeps its entries**: slot 1 of the folder is in use, or no slot is. -/
theorem delete_keeps_entries_iff (s : Fs) (r : FAT32DriverRequest) (i : Fin 64) (hname : r.name ≠ 0)
    (hi : FoundAt (tableAt s (clusterIndex r.parent_cluster_number)) r i)
    (hattr : (tableAt s (clusterIndex r.parent_cluster_number) i).attr = ATTR_SUBDIRECTORY) :
    KeepsEntries s r i ↔
      (folderTable s r i 1).InUse ∨ ∀ j, j ≠ 0 → ¬ (folderTable s r i j).InUse := by
  constructor
  · intro h
    by_cases hempty : ∃ j, j ≠ 0 ∧ (folderTable s r i j).InUse
    · refine .inl (scan_folder_gt_one.mp (by_contra fun hscan => ?_))
      obtain ⟨s', h2, -⟩ := h.refused hempty 0
      unfold folderTable at hscan
      rw [delete_eq rfl hname hi, if_pos hattr, if_neg hscan] at h2
      split_ifs at h2
      exact absurd (Prod.mk.inj (Except.ok.inj h2)).1 (by decide)
    · exact .inr fun j hj hu => hempty ⟨j, hj, hu⟩
  · rintro (h1 | hempty)
    · have hfull : ∀ fuel, delete fuel s r = .ok (2, s) := fun fuel =>
        delete_folder_full rfl hname hi fuel hattr (scan_folder_gt_one.mpr h1)
      refine ⟨fun fuel s' h => ?_, fun _ fuel => ⟨s, hfull fuel, rfl, rfl⟩⟩
      rw [hfull] at h
      exact absurd (Prod.mk.inj (Except.ok.inj h)).1 (by decide)
    · exact ⟨fun _ _ _ => hempty, fun ⟨j, hj, hu⟩ => absurd hu (hempty j hj)⟩

/-- The request for a file or folder with a name of one letter. -/
def small (parent : UInt32) (letter : UInt8) (size : UInt32) : FAT32DriverRequest where
  buf _ := 0
  name := ![letter, 0, 0, 0, 0, 0, 0, 0]
  ext := 0
  parent_cluster_number := parent
  buffer_size := size

theorem small_name_ne {p q : UInt32} {a b : UInt8} {m k : UInt32} (h : a ≠ b) :
    (small p a m).name ≠ (small q b k).name := fun e => h (congrFun e 0)

theorem small_name_ne_zero {p : UInt32} {a : UInt8} {m : UInt32} (h : a ≠ 0) : (small p a m).name ≠ 0 :=
  fun e => h (congrFun e 0)

/-- A new folder is live, and it has no entry. -/
theorem Added.folder {e : FAT32DirectoryEntry} {cs : List ℕ} {data : ℕ → Cluster}
    (h : Added s s' P n e cs data) (hs : Inv s) (hattr : e.attr = ATTR_SUBDIRECTORY) :
    Live s' e.cluster.toNat ∧ ∀ j, j ≠ 0 → tableAt s' e.cluster.toNat j = 0 := by
  have heq := h.tableAt_new hs
  constructor
  · have := Live.sub (h.held_new hs).live h.slot (h.held_new hs).inUse (heq ▸ hattr)
    rwa [heq] at this
  · rcases h.kind with hf | ⟨-, hz⟩
    · exact absurd hattr hf.attr
    · rw [h.tableAt_folder hs]
      exact hz

theorem Asked.folder {e : FAT32DirectoryEntry} {cs : List ℕ} {data : ℕ → Cluster}
    (h : Asked r e cs data) (hsize : r.buffer_size = 0) : e = folderEntry r.name 0 e.cluster := by
  rcases h with ⟨-, he⟩ | ⟨hok, -⟩
  · exact he
  · rw [hsize] at hok
    exact absurd hok.1 (by decide)

theorem Asked.file {e : FAT32DirectoryEntry} {cs : List ℕ} {data : ℕ → Cluster}
    (h : Asked r e cs data) (hsize : r.buffer_size ≠ 0) :
    SizeOk r.buffer_size ∧ e = fileEntry r.name r.ext r.buffer_size e.cluster := by
  rcases h with ⟨h0, -⟩ | ⟨hok, he, -⟩
  · exact absurd h0 hsize
  · exact ⟨hok, he⟩

/-- The folder with this name and cluster in the root's first slot. -/
structure FirstFolder (s : Fs) (letter : UInt8) (c : UInt32) : Prop where
  inv : Inv s
  entry : tableAt s 2 1 = folderEntry (small 2 letter 0).name 0 c

namespace FirstFolder

variable {letter : UInt8} {c : UInt32} {e : FAT32DirectoryEntry} {cs l : List ℕ} {data : ℕ → Cluster}

theorem attr (h : FirstFolder s letter c) : (tableAt s 2 1).attr = ATTR_SUBDIRECTORY := by
  rw [h.entry]
  rfl

theorem held (h : FirstFolder s letter c) : Held s 2 1 := by
  refine ⟨.root, by decide, ?_⟩
  rw [h.entry]
  rfl

theorem live (h : FirstFolder s letter c) : Live s c.toNat := by
  have := Live.sub .root h.held.slot h.held.inUse h.attr
  rwa [h.entry, cluster_folderEntry] at this

theorem bounds (h : FirstFolder s letter c) : 3 ≤ c.toNat ∧ c.toNat < 512 := by
  have := (h.inv.isFolder h.held h.attr).bounds _ (List.mem_singleton_self _)
  rwa [h.entry, cluster_folderEntry] at this

/-- The entry of the folder in itself. -/
theorem self (h : FirstFolder s letter c) :
    tableAt s c.toNat 0 = folderEntry (small 2 letter 0).name 0 2 := by
  rcases (h.inv.isFolder h.held h.attr).kind with hf | hd
  · exact absurd h.attr hf.attr
  · have hself := hd.self
    rwa [h.entry, cluster_folderEntry] at hself

theorem folderTable_eq (h : FirstFolder s letter c) :
    folderTable s (small 2 letter 0) 1 = tableAt s c.toNat := by
  rw [folderTable, show clusterIndex (small 2 letter 0).parent_cluster_number = 2 from rfl, h.entry,
    cluster_folderEntry, clusterIndex_of_lt h.bounds.2]

/-- `write` leaves the folder. -/
theorem added (h : FirstFolder s letter c) (ha : Added s s' P n e cs data) : FirstFolder s' letter c :=
  ⟨ha.inv h.inv, (ha.tableAt_held h.inv .root h.held.inUse).trans h.entry⟩

/-- `delete` in it leaves the folder. -/
theorem cleared (h : FirstFolder s letter c) (hc : Cleared s s' c.toNat n l) : FirstFolder s' letter c := by
  have h3 := h.bounds.1
  have hroot : 2 ∉ l := fun hm => by
    have := (hc.sound.bounds 2 hm).1
    omega
  refine ⟨hc.inv h.inv, (hc.tableAt_ne h.inv .root hroot fun hP => ?_).trans h.entry⟩
  have := hP.1
  omega

theorem found (h : FirstFolder s letter c) : FoundAt (tableAt s 2) (small 2 letter 0) 1 := by
  have hname : (tableAt s 2 1).name = (small 2 letter 0).name := by rw [h.entry]; rfl
  have hext : (tableAt s 2 1).ext = (small 2 letter 0).ext := by rw [h.entry]; rfl
  obtain ⟨l, hl⟩ := h.inv.sound h.held
  obtain ⟨j, hj⟩ := exists_foundAt h.held.slot ⟨hname, hext⟩
  obtain rfl := h.inv.names (hj.held h.inv .root (hname ▸ hl.name)) h.held (hj.spec.2.1.trans hname.symm)
  exact hj

/-- `delete` finds the folder, and takes it for empty when slot 1 is free. -/
theorem delete (h : FirstFolder s letter c) (h1 : ¬ (tableAt s c.toNat 1).InUse) :
    ∃ s', KeropOS.delete 512 s (small 2 letter 0) = .ok (0, s') ∧
      FoundAt (tableAt s 2) (small 2 letter 0) 1 := by
  obtain ⟨s', -, hdelete, hfound, -⟩ := delete_held (P := 2) (r := small 2 letter 0) h.inv rfl h.held
    (by rw [h.entry]; rfl) (by rw [h.entry]; rfl) fun _ => by
      rwa [h.entry, cluster_folderEntry, scan_folder_gt_one]
  exact ⟨s', hdelete, hfound⟩

end FirstFolder

/-- A folder in a new file system. -/
theorem boot_folder (d : Disk) (letter : UInt8) (hl : letter ≠ 0) : ∃ reply s c,
    Step (boot d) (.write (small 2 letter 0), reply) s ∧ reply.code = 0 ∧ FirstFolder s letter c ∧
      tableAt s 2 = Function.update (tableAt (boot d) 2) 1 (folderEntry (small 2 letter 0).name 0 c) ∧
      (∀ j, j ≠ 0 → tableAt s c.toNat j = 0) ∧ (emptyCells s.cluster_map).length = 508 := by
  obtain ⟨reply, s, hstep, hcode, e, cs, data, h, hask⟩ := boot_added d (r := small 2 letter 0) rfl
    (small_name_ne_zero hl) (.inl rfl)
  have hs := inv_boot d
  have he := hask.folder rfl
  have hattr : e.attr = ATTR_SUBDIRECTORY := by
    rw [he]
    rfl
  have hlen : cs.length = 1 := by
    rcases h.kind with hf | ⟨hd, -⟩
    · exact absurd hattr hf.attr
    · exact hd.cells
  have hcells := h.length_emptyCells hs
  rw [emptyCells_boot, List.length_range', hlen] at hcells
  refine ⟨reply, s, e.cluster, hstep, hcode, ⟨h.inv hs, (h.tableAt_new hs).trans he⟩, ?_,
    (h.folder hs hattr).2, by omega⟩
  rw [← he]
  exact (h.tableAt_live hs .root).trans (if_pos rfl)

theorem sizeOk_one : SizeOk 1 := ⟨by decide, by decide⟩

/-- A file of one byte in a folder. -/
theorem write_small {c : UInt32} (letter : UInt8) (hs : Inv s) (hlive : Live s c.toNat) (hl : letter ≠ 0)
    (hfree : ∃ j, ¬ (tableAt s c.toNat j).InUse)
    (hfresh : FreshName (tableAt s c.toNat) (small c letter 1).name)
    (hcells : 1 ≤ (emptyCells s.cluster_map).length) :
    ∃ reply s', Step s (.write (small c letter 1), reply) s' ∧ reply.code = 0 ∧ ∃ n x cs data,
      FirstFree (tableAt s c.toNat) n ∧ cs.length = 1 ∧
      Added s s' c.toNat n (fileEntry (small c letter 1).name 0 1 x) cs data := by
  obtain ⟨reply, s', hstep, hcode, n, e, cs, data, hn, h, hask⟩ := write_succeeds (r := small c letter 1) hs
    ⟨hlive, hfree, .inr sizeOk_one⟩ (small_name_ne_zero hl) hfresh
    ((by decide : cellsNeeded 1 ≤ 1).trans hcells)
  have he := (hask.file (by decide : (1 : UInt32) ≠ 0)).2
  have hlen : cs.length = 1 := by
    rcases h.kind with hf | ⟨hd, -⟩
    · rw [hf.cells, he]
      exact (by decide : clustersFor (1 : UInt32).toNat = 1)
    · exact absurd hd.attr (by rw [he]; exact attr_fileEntry _ _ _ _)
  exact ⟨reply, s', hstep, hcode, n, e.cluster, cs, data, hn, hlen, he ▸ h⟩

/-- A folder `d` with the file `a`. -/
theorem boot_folder_file : ∃ es s c x, Run Step (boot 0) es s ∧ FirstFolder s 100 c ∧
    tableAt s 2 = Function.update (tableAt (boot 0) 2) 1 (folderEntry (small 2 100 0).name 0 c) ∧
    Held s c.toNat 1 ∧ tableAt s c.toNat 1 = fileEntry (small c 97 1).name 0 1 x ∧
    (∀ j, j ≠ 0 → j ≠ 1 → tableAt s c.toNat j = 0) ∧ (emptyCells s.cluster_map).length = 507 := by
  obtain ⟨q₁, s₁, c, hstep₁, -, hd₁, hroot₁, hzero, hcells₁⟩ := boot_folder 0 100 (by decide)
  obtain ⟨q, s, hstep, -, n, x, cs, data, hn, hlen, h⟩ := write_small 97 hd₁.inv hd₁.live (by decide)
    ⟨1, by rw [hzero 1 (by decide)]; exact not_inUse_zero⟩
    (fun i hi hn => small_name_ne_zero (by decide) (hn.symm.trans
      (congrArg FAT32DirectoryEntry.name (hzero i hi)))) (by omega)
  obtain rfl := hn.eq_one (hd₁.inv.self hd₁.live) (hzero 1 (by decide))
  have hcells := h.length_emptyCells hd₁.inv
  have htable := h.tableAt_live hd₁.inv hd₁.live
  rw [if_pos rfl] at htable
  have hc := hd₁.bounds.1
  have hroot := h.tableAt_live hd₁.inv .root
  rw [if_neg (by omega)] at hroot
  refine ⟨_, s, c, x, (Run.single hstep₁).snoc hstep, hd₁.added h, hroot.trans hroot₁, h.held_new hd₁.inv,
    h.tableAt_new hd₁.inv, fun j hj hj1 => ?_, by omega⟩
  rw [htable, Function.update_of_ne hj1, hzero j hj]

/-- And another file, `b`. -/
theorem boot_two_files : ∃ es s c n x, Run Step (boot 0) es s ∧ FirstFolder s 100 c ∧ Held s c.toNat 1 ∧
    tableAt s c.toNat 1 = fileEntry (small c 97 1).name 0 1 x ∧ n ≠ 1 ∧ Held s c.toNat n := by
  obtain ⟨es, s, c, x, hrun, hd, -, hheld, hentry, hzero, hcells⟩ := boot_folder_file
  obtain ⟨q, t, hstep, -, n, y, cs, data, -, -, h⟩ := write_small 98 hd.inv hd.live (by decide)
    ⟨2, by rw [hzero 2 (by decide) (by decide)]; exact not_inUse_zero⟩
    (fun i hi hn => by
      by_cases h1 : i = 1
      · rw [h1, hentry] at hn
        exact small_name_ne (p := c) (q := c) (m := 1) (k := 1) (by decide : (97 : UInt8) ≠ 98) hn
      · rw [hzero i hi h1] at hn
        exact small_name_ne_zero (by decide) hn.symm) (by omega)
  exact ⟨_, t, c, n, x, hrun.snoc hstep, hd.added h, h.held_of_held hd.inv hheld,
    (h.tableAt_held hd.inv hd.live hheld.inUse).trans hentry, fun e => h.vacant (e ▸ hheld.inUse),
    h.held_new hd.inv⟩

/-- When `a` is deleted again, `delete` of `d` returns 0. -/
theorem delete_drops_entry : ∃ es s, Run Step (boot 0) es s ∧ FoundAt (tableAt s 2) (small 2 100 0) 1 ∧
    (tableAt s 2 1).attr = ATTR_SUBDIRECTORY ∧ ¬ KeepsEntries s (small 2 100 0) 1 := by
  obtain ⟨es, s, c, n, x, hrun, hd, ha, hentry, hn, hb⟩ := boot_two_files
  have hfile : (tableAt s c.toNat 1).attr ≠ ATTR_SUBDIRECTORY := by
    rw [hentry]
    exact attr_fileEntry _ _ _ _
  obtain ⟨q, s', hstep, -, l, hcl⟩ := delete_succeeds (P := c.toNat) (r := small c 97 1) hd.inv rfl ha
    (by rw [hentry]; rfl) (by rw [hentry]; rfl) fun hattr => absurd hattr hfile
  have hd' := hd.cleared hcl
  have hcl' : c.toNat ∉ l := fun hm => hfile (hd.inv.live_mem_chain ha hcl.sound.chain hm hd.live).1
  have htable := hcl.tableAt_live hd.inv hd.live hcl'
  rw [if_pos rfl] at htable
  obtain ⟨t, hdelete, hfound⟩ := hd'.delete (by
    rw [htable, Function.update_self]
    exact not_inUse_zero)
  refine ⟨_, s', hrun.snoc hstep, hfound, hd'.attr, fun hkeeps => ?_⟩
  apply hkeeps.empty 512 t hdelete n hb.slot
  rw [hd'.folderTable_eq, htable, Function.update_of_ne hn]
  exact hb.inUse

/-- `delete` of a folder with a file, which returns 2. -/
theorem delete_keeps_entries_file : ∃ es s c, Run Step (boot 0) es s ∧ FirstFolder s 100 c ∧
    Held s c.toNat 1 ∧ KeepsEntries s (small 2 100 0) 1 := by
  obtain ⟨es, s, c, x, hrun, hd, -, hheld, -⟩ := boot_folder_file
  have hiff := delete_keeps_entries_iff s (small 2 100 0) 1 (small_name_ne_zero (by decide)) hd.found hd.attr
  refine ⟨es, s, c, hrun, hd, hheld, hiff.mpr (.inl ?_)⟩
  rw [hd.folderTable_eq]
  exact hheld.inUse

/-! ## Failed calls -/

/-- One call; `newDir` is what the stack holds there. -/
def execOn (newDir : FAT32DirectoryTable) (fuel : ℕ) (s : Fs) : Call → Except Trap (Reply × Fs)
  | .write r =>
    match KeropOS.write newDir s r with
    | .error t => .error t
    | .ok (code, s') => .ok (⟨code, r.buf⟩, s')
  | .delete r => exec fuel s (.delete r)
  | .read r => exec fuel s (.read r)
  | .read_directory r => exec fuel s (.read_directory r)

/-- The call is one that only reads. -/
def Call.Reads : Call → Prop
  | .read _ | .read_directory _ => True
  | .write _ | .delete _ => False

/-- Every return code of `delete` but 0 leaves the state as it was. -/
theorem delete_failed {fuel : ℕ} {code : ℤ} (h : delete fuel s r = .ok (code, s')) (hc : code ≠ 0) :
    s' = s := by
  rcases delete_cases h with ⟨-, -, he⟩ | ⟨-, ⟨-, he⟩ | h0⟩
  · exact he
  · exact he
  · exact absurd h0 hc

/-- **Failed calls change nothing**, and neither do calls that only read. -/
theorem failed_calls_change_nothing (newDir : FAT32DirectoryTable) (fuel : ℕ) (s s' : Fs) (call : Call)
    (reply : Reply) (h : execOn newDir fuel s call = .ok (reply, s')) (hc : reply.code ≠ 0 ∨ call.Reads) :
    s'.disk = s.disk ∧ s'.cluster_map = s.cluster_map := by
  cases call with
  | write r =>
    rw [execOn] at h
    split at h
    · exact absurd h (by simp)
    · rename_i code s₁ hw
      obtain ⟨rfl, rfl⟩ := Prod.mk.inj (Except.ok.inj h)
      have hc : code ≠ 0 := hc.resolve_right id
      rcases write_cases hw with ⟨-, hu⟩ | ⟨h0, -⟩ | ⟨h0, -⟩
      · exact ⟨hu.disk, hu.map⟩
      · exact absurd h0 hc
      · exact absurd h0 hc
  | delete r =>
    rw [execOn, exec] at h
    split at h
    · exact absurd h (by simp)
    · rename_i code s₁ hd
      obtain ⟨rfl, rfl⟩ := Prod.mk.inj (Except.ok.inj h)
      obtain rfl := delete_failed hd (hc.resolve_right id)
      exact ⟨rfl, rfl⟩
  | read r =>
    rw [execOn] at h
    obtain rfl := read_unchanged h
    exact ⟨rfl, rfl⟩
  | read_directory r =>
    rw [execOn] at h
    obtain rfl := read_directory_unchanged h
    exact ⟨rfl, rfl⟩

/-- `write` of a name that is taken. -/
theorem write_taken (newDir : FAT32DirectoryTable) (hname : r.name ≠ 0)
    (hparent : 2 ≤ r.parent_cluster_number.toNat)
    (htaken : ¬ FreshName (tableAt s (clusterIndex r.parent_cluster_number)) r.name) :
    write newDir s r = .ok (1, loaded s (clusterIndex r.parent_cluster_number)) := by
  rw [write_eq newDir s r hname hparent rfl, if_pos]
  exact any_name.mpr (by_contra fun hn => htaken fun i hi e => hn ⟨i, hi, e⟩)

/-- In a folder with a file: the file is written again, and then the folder is deleted. -/
theorem failed_calls_change_nothing_folder : ∃ es s c s₁ s₂, Run Step (boot 0) es s ∧ FirstFolder s 100 c ∧
    execOn 0 512 s (.write (small c 97 1)) = .ok (⟨1, (small c 97 1).buf⟩, s₁) ∧
    (s₁.disk = s.disk ∧ s₁.cluster_map = s.cluster_map) ∧
    execOn 0 512 s (.delete (small 2 100 0)) = .ok (⟨2, (small 2 100 0).buf⟩, s₂) ∧
    s₂.disk = s.disk ∧ s₂.cluster_map = s.cluster_map := by
  obtain ⟨es, s, c, x, hrun, hd, -, hheld, hentry, -, -⟩ := boot_folder_file
  have htaken : ¬ FreshName (tableAt s (clusterIndex c)) (small c 97 1).name := by
    intro hfresh
    rw [clusterIndex_of_lt hd.bounds.2] at hfresh
    exact hfresh 1 (by decide) (by rw [hentry]; rfl)
  have hwrite := write_taken 0 (r := small c 97 1) (small_name_ne_zero (by decide))
    (Nat.le_of_succ_le hd.bounds.1) htaken
  have hfull : scan_folder (folderTable s (small 2 100 0) 1) > 1 := by
    rw [scan_folder_gt_one, hd.folderTable_eq]
    exact hheld.inUse
  have hdelete : delete 512 s (small 2 100 0) = .ok (2, s) :=
    delete_folder_full (P := 2) rfl (small_name_ne_zero (by decide)) hd.found 512 hd.attr hfull
  have h₁ : execOn 0 512 s (.write (small c 97 1)) =
      .ok (⟨1, (small c 97 1).buf⟩, loaded s (clusterIndex c)) := by
    rw [execOn, hwrite]
    rfl
  have h₂ : execOn 0 512 s (.delete (small 2 100 0)) = .ok (⟨2, (small 2 100 0).buf⟩, s) := by
    rw [execOn, exec, hdelete]
  exact ⟨es, s, c, _, _, hrun, hd, h₁, failed_calls_change_nothing 0 512 _ _ _ _ h₁ (.inl one_ne_zero), h₂,
    failed_calls_change_nothing 0 512 _ _ _ _ h₂ (.inl two_ne_zero)⟩

/-! ## The parent's slots -/

/-- The table of the parent. -/
abbrev parentTable (s : Fs) (r : FAT32DriverRequest) : FAT32DirectoryTable :=
  tableAt s (clusterIndex r.parent_cluster_number)

/-- Slot `n` of the parent was free, it now has the entry of the request, which heads a chain of cells
that were empty, and the other slots are as before. -/
structure Filled (s s' : Fs) (r : FAT32DriverRequest) (n : Fin 64) : Prop where
  free : ¬ (parentTable s r n).InUse
  inUse : (parentTable s' r n).InUse
  name : (parentTable s' r n).name = r.name
  attr : (parentTable s' r n).attr = if r.buffer_size = 0 then ATTR_SUBDIRECTORY else ATTR_ARCHIVE
  filesize : (parentTable s' r n).filesize = r.buffer_size
  chain : ∃ cs, FatChain s'.cluster_map (parentTable s' r n).cluster.toNat cs ∧
    ∀ c ∈ cs, c < 512 ∧ cell s.cluster_map c = FAT32_FAT_EMPTY_ENTRY
  other : ∀ k, k ≠ n → parentTable s' r k = parentTable s r k

/-- `write` returns 0 only when it fills exactly one slot; into a full parent it returns another code
and changes nothing. -/
structure FillsOneSlot (newDir : FAT32DirectoryTable) (s : Fs) (r : FAT32DriverRequest) : Prop where
  filled : ∀ s', write newDir s r = .ok (0, s') → ∃ n, Filled s s' r n
  full : (∀ n, (parentTable s r n).InUse) → ∃ code s', write newDir s r = .ok (code, s') ∧ code ≠ 0 ∧
    s'.disk = s.disk ∧ s'.cluster_map = s.cluster_map

/-- The parent's table after a `write`. -/
theorem Allocated.tableAt_parent {e : FAT32DirectoryEntry} {cs : List ℕ} {data : ℕ → Cluster}
    (h : Allocated s s' P n e cs data) : tableAt s' P = Function.update (tableAt s P) n e := by
  rw [tableAt, h.disk, if_pos rfl]
  exact Layout.decode_encode _ _

/-- The new chain. -/
theorem Allocated.chain {e : FAT32DirectoryEntry} {cs : List ℕ} {data : ℕ → Cluster}
    (h : Allocated s s' P n e cs data) : FatChain s'.cluster_map e.cluster.toNat cs := by
  obtain ⟨t, rfl⟩ := h.head
  rw [h.map]
  exact fatChain_linkCells h.nodup fun k hk => (h.fresh k hk).1.2

theorem Allocated.filled {e : FAT32DirectoryEntry} {cs : List ℕ} {data : ℕ → Cluster}
    (h : Allocated s s' (clusterIndex r.parent_cluster_number) n e cs data)
    (hfree : ¬ (parentTable s r n).InUse) (huse : e.InUse) (hname : e.name = r.name)
    (hsize : e.filesize = r.buffer_size)
    (hattr : e.attr = if r.buffer_size = 0 then ATTR_SUBDIRECTORY else ATTR_ARCHIVE) : Filled s s' r n := by
  have htable := h.tableAt_parent
  have hnew : parentTable s' r n = e := by rw [parentTable, htable, Function.update_self]
  refine ⟨hfree, hnew ▸ huse, hnew ▸ hname, hnew ▸ hattr, hnew ▸ hsize,
    ⟨cs, hnew ▸ h.chain, fun c hc => ⟨(h.fresh c hc).1.2, (h.fresh c hc).2⟩⟩, fun k hk => ?_⟩
  rw [parentTable, htable, Function.update_of_ne hk]

/-- Why `write` may refuse a request before it looks for a slot. -/
def RefusedFirst (s : Fs) (r : FAT32DriverRequest) : Prop :=
  r.name = 0 ∨ r.parent_cluster_number.toNat < 2 ∨ ¬ FreshName (parentTable s r) r.name

theorem write_refused_first (newDir : FAT32DirectoryTable) (h : RefusedFirst s r) :
    ∃ code s', write newDir s r = .ok (code, s') ∧ code ≠ 0 := by
  by_cases hname : r.name = 0
  · exact ⟨-1, s, by rw [write, if_pos (by simpa using hname)], by decide⟩
  by_cases hparent : r.parent_cluster_number.toNat < 2
  · exact ⟨2, s, by rw [write, if_neg (by simpa using hname), if_pos hparent], by decide⟩
  have hfresh := (h.resolve_left hname).resolve_left hparent
  exact ⟨1, _, write_taken newDir hname (by omega) hfresh, by decide⟩

/-- `write` into a full parent leaves its table. -/
theorem write_full (newDir : FAT32DirectoryTable) (h : ¬ RefusedFirst s r)
    (hfull : ∀ n, (parentTable s r n).InUse) : write newDir s r = .error .outOfBounds := by
  unfold RefusedFirst at h
  obtain ⟨hname, h⟩ := not_or.mp h
  obtain ⟨hparent, h⟩ := not_or.mp h
  have hfresh := not_not.mp h
  have hnone : (Fin.find? fun n => (parentTable s r n).user_attribute != UATTR_NOT_EMPTY) = none :=
    Fin.find?_eq_none_iff.mpr fun n => by simpa [FAT32DirectoryEntry.InUse] using hfull n
  rw [write_eq newDir s r hname (not_lt.mp hparent) rfl, if_neg (fun hsame => ?_), hnone]
  obtain ⟨i, hi, e⟩ := any_name.mp hsame
  exact hfresh i hi e

/-- **When `write` fills exactly one slot**: the parent has a free slot, or the request is refused before
the search for one. -/
theorem write_fills_one_slot_iff (newDir : FAT32DirectoryTable) (s : Fs) (r : FAT32DriverRequest) :
    FillsOneSlot newDir s r ↔ (∃ n, ¬ (parentTable s r n).InUse) ∨ r.name = 0 ∨
      r.parent_cluster_number.toNat < 2 ∨ ¬ FreshName (parentTable s r) r.name := by
  have hfilled : ∀ s', write newDir s r = .ok (0, s') → ∃ n, Filled s s' r n := by
    intro s' h
    rcases write_cases h with ⟨hr, -⟩ | ⟨-, hsize, n, i, hw⟩ | ⟨-, hsize, n, cs, data, hw⟩
    · exact absurd rfl hr.code_ne_zero
    · exact ⟨n, hw.alloc.filled hw.ok.slot.1 rfl rfl hsize.symm (by rw [if_pos hsize]; rfl)⟩
    · exact ⟨n, hw.alloc.filled hw.ok.slot.1 rfl rfl rfl (by rw [if_neg hsize.ne_zero]; rfl)⟩
  constructor
  · intro h
    by_contra hcond
    obtain ⟨hslot, hrefused⟩ := not_or.mp hcond
    have hfull : ∀ n, (parentTable s r n).InUse := fun n => by_contra fun hn => hslot ⟨n, hn⟩
    obtain ⟨code, s', hw, -⟩ := h.full hfull
    rw [write_full newDir hrefused hfull] at hw
    exact absurd hw (by simp)
  · rintro (⟨n, hn⟩ | hrefused)
    · exact ⟨hfilled, fun hfull => absurd (hfull n) hn⟩
    · refine ⟨hfilled, fun _ => ?_⟩
      obtain ⟨code, s', hw, hc⟩ := write_refused_first newDir hrefused
      rcases write_cases hw with ⟨-, hu⟩ | ⟨h0, -⟩ | ⟨h0, -⟩
      · exact ⟨code, s', hw, hc, hu.disk, hu.map⟩
      · exact absurd h0 hc
      · exact absurd h0 hc

/-- The root has files in its first slots, with one letter each for a name. -/
structure FirstFiles (s : Fs) (k : ℕ) : Prop where
  inv : Inv s
  inUse : ∀ i, (tableAt s 2 i).InUse ↔ i.val ≤ k
  names : ∀ i, i ≠ 0 → i.val ≤ k → ∃ j ≤ k, (tableAt s 2 i).name = (small 2 (UInt8.ofNat j) 1).name
  cells : (emptyCells s.cluster_map).length + k = 509

theorem firstFiles_boot (d : Disk) : FirstFiles (boot d) 0 where
  inv := inv_boot d
  inUse i := by
    by_cases hi : i = 0
    · subst hi
      exact iff_of_true ((inv_boot d).self .root) le_rfl
    · rw [boot_slot d hi]
      exact iff_of_false not_inUse_zero fun h => hi (Fin.ext (Nat.le_zero.mp h))
  names i hi h := absurd (Fin.ext (Nat.le_zero.mp h)) hi
  cells := by rw [emptyCells_boot, List.length_range']

/-- A letter that is not the name of one of the files. -/
theorem FirstFiles.fresh {k a : ℕ} (h : FirstFiles s k) (hk : k < a) (ha : a < 256) :
    FreshName (tableAt s 2) (small 2 (UInt8.ofNat a) 1).name := by
  intro i hi hn
  by_cases hik : i.val ≤ k
  · obtain ⟨j, hj, hname⟩ := h.names i hi hik
    have := congrArg UInt8.toNat (congrFun (hname.symm.trans hn) 0)
    rw [show (small 2 (UInt8.ofNat j) 1).name 0 = UInt8.ofNat j from rfl,
      show (small 2 (UInt8.ofNat a) 1).name 0 = UInt8.ofNat a from rfl,
      UInt8.toNat_ofNat', UInt8.toNat_ofNat'] at this
    omega
  · rw [h.inv.free .root fun hu => hik ((h.inUse i).mp hu)] at hn
    have := congrArg UInt8.toNat (congrFun hn 0)
    rw [show (small 2 (UInt8.ofNat a) 1).name 0 = UInt8.ofNat a from rfl, UInt8.toNat_ofNat'] at this
    have h0 : ((0 : FAT32DirectoryEntry).name 0).toNat = 0 := rfl
    omega

/-- The next file goes to the next slot. -/
theorem FirstFiles.next {k : ℕ} (h : FirstFiles s k) (hk : k < 63) :
    ∃ event s', Step s event s' ∧ FirstFiles s' (k + 1) := by
  have hfree : ¬ (tableAt s 2 ⟨k + 1, by omega⟩).InUse := fun hu => by
    have := (h.inUse _).mp hu
    simp only at this
    omega
  have hletter : UInt8.ofNat (k + 1) ≠ 0 := fun e => by
    have := congrArg UInt8.toNat e
    rw [UInt8.toNat_ofNat', show (0 : UInt8).toNat = 0 from rfl] at this
    omega
  have hcells := h.cells
  obtain ⟨reply, s', hstep, -, n, x, cs, data, hn, hlen, ha⟩ := write_small (c := 2) _ h.inv .root hletter
    ⟨_, hfree⟩ (h.fresh (Nat.lt_succ_self k) (by omega)) (by omega)
  have hnk : n.val = k + 1 := by
    have h1 : ¬ n.val ≤ k := fun hle => hn.1 ((h.inUse n).mpr hle)
    have h2 : ¬ k + 1 < n.val := fun hlt => hfree (hn.2 ⟨k + 1, by omega⟩ (Fin.lt_def.mpr hlt))
    omega
  have htable := ha.tableAt_live h.inv .root
  rw [show (2 : UInt32).toNat = 2 from rfl, if_pos rfl] at htable
  have hcount := ha.length_emptyCells h.inv
  refine ⟨_, s', hstep, ha.inv h.inv, fun i => ?_, fun i hi hik => ?_, by omega⟩
  · rw [htable]
    by_cases hi : i = n
    · subst hi
      rw [Function.update_self]
      exact iff_of_true rfl (by omega)
    · have : i.val ≠ n.val := fun e => hi (Fin.ext e)
      rw [Function.update_of_ne hi, h.inUse]
      omega
  · rw [htable]
    by_cases hin : i = n
    · subst hin
      exact ⟨k + 1, le_rfl, by rw [Function.update_self]; rfl⟩
    · have : i.val ≠ n.val := fun e => hin (Fin.ext e)
      obtain ⟨j, hj, hname⟩ := h.names i hi (by omega)
      exact ⟨j, by omega, by rw [Function.update_of_ne hin]; exact hname⟩

/-- **The root can be filled.** -/
theorem fill_root (d : Disk) {k : ℕ} (hk : k ≤ 63) : ∃ es s, Run Step (boot d) es s ∧ FirstFiles s k := by
  induction k with
  | zero => exact ⟨[], boot d, .nil, firstFiles_boot d⟩
  | succ k ih =>
    obtain ⟨es, s, hrun, h⟩ := ih (by omega)
    obtain ⟨event, s', hstep, h'⟩ := h.next (by omega)
    exact ⟨_, s', hrun.snoc hstep, h'⟩

/-- 63 files in the root; the next `write` stores past the end of its table. -/
theorem write_overruns_full_parent : ∃ es s, Run Step (boot 0) es s ∧
    (∀ n, (parentTable s (small 2 97 1) n).InUse) ∧ ¬ FillsOneSlot 0 s (small 2 97 1) := by
  obtain ⟨es, s, hrun, h⟩ := fill_root 0 (le_refl 63)
  have hfull : ∀ n, (parentTable s (small 2 97 1) n).InUse := fun n => (h.inUse n).mpr (by omega)
  refine ⟨es, s, hrun, hfull, fun hfills => ?_⟩
  obtain ⟨code, s', hw, -⟩ := hfills.full hfull
  have hfresh := h.fresh (show 63 < 97 by decide) (by decide)
  have hrefused : ¬ RefusedFirst s (small 2 97 1) := by
    rintro (h0 | hlt | hf)
    · exact small_name_ne_zero (by decide) h0
    · exact absurd hlt (by decide)
    · exact hf hfresh
  rw [write_full 0 hrefused hfull] at hw
  exact absurd hw (by simp)

/-! ## The length of the new chain -/

/-- `write` returns another code than 0 and changes nothing, or it makes a chain of the clusters that
`buffer_size` bytes need. -/
def ChainFits (newDir : FAT32DirectoryTable) (s : Fs) (r : FAT32DriverRequest) : Prop :=
  ∃ code s', write newDir s r = .ok (code, s') ∧
    (code ≠ 0 ∧ s'.disk = s.disk ∧ s'.cluster_map = s.cluster_map ∨
      code = 0 ∧ ∃ n cs, Filled s s' r n ∧ FatChain s'.cluster_map (parentTable s' r n).cluster.toNat cs ∧
        cs.length = clustersFor r.buffer_size.toNat)

/-- **When the new chain has the right length**: the size is one of 1 to 255 clusters, or fewer cells are
empty than the 8-bit count says, or the request is refused first. -/
theorem write_chain_fits_iff (newDir : FAT32DirectoryTable) (s : Fs) (r : FAT32DriverRequest)
    (hsize : r.buffer_size ≠ 0) (hslot : ∃ n, ¬ (parentTable s r n).InUse)
    (hfresh : FreshName (parentTable s r) r.name) :
    ChainFits newDir s r ↔ r.buffer_size.toNat ≤ 255 * 2048 ∨
      (emptyCells s.cluster_map).length < clustersFor r.buffer_size.toNat % 256 ∨ r.name = 0 ∨
      r.parent_cluster_number.toNat < 2 := by
  have hpos : 1 ≤ r.buffer_size.toNat := by
    refine Nat.one_le_iff_ne_zero.mpr fun e => hsize (UInt32.toNat_inj.mp e)
  rw [← n_cluster_eq_mod]
  constructor
  · rintro ⟨code, s', hw, -⟩
    rcases write_cases hw with ⟨hr, -⟩ | ⟨-, h0, -⟩ | ⟨-, hok, -⟩
    · cases hr with
      | unnamed h => exact .inr (.inr (.inl h))
      | parent h => exact .inr (.inr (.inr h))
      | taken h => exact absurd hfresh h
      | full h =>
        rw [cellsNeeded, if_neg hsize] at h
        exact .inr (.inl h)
    · exact absurd h0 hsize
    · exact .inl hok.2
  · intro hcond
    have hreturns : ∃ reply, write newDir s r = .ok reply := by
      rcases hcond with hle | hfew | hrefused
      · exact write_returns newDir hslot (.inl (.inr ⟨hpos, hle⟩))
      · exact write_returns newDir hslot (.inr hfew)
      · obtain ⟨code, s', h, -⟩ := write_refused_first newDir (s := s) (r := r)
          (hrefused.imp id .inl)
        exact ⟨_, h⟩
    obtain ⟨⟨code, s'⟩, hw⟩ := hreturns
    refine ⟨code, s', hw, ?_⟩
    rcases write_cases hw with ⟨hr, hu⟩ | ⟨-, h0, -⟩ | ⟨rfl, hok, n, cs, data, hf⟩
    · exact .inl ⟨hr.code_ne_zero, hu.disk, hu.map⟩
    · exact absurd h0 hsize
    · have hfilled : Filled s s' r n := hf.alloc.filled hf.ok.slot.1 rfl rfl rfl (by rw [if_neg hsize]; rfl)
      refine .inr ⟨rfl, n, cs, hfilled, ?_, by rw [hf.length, n_cluster_eq hok]⟩
      rw [parentTable, hf.alloc.tableAt_parent, Function.update_self]
      exact hf.alloc.chain

/-- The first file of the root. -/
theorem write_chain_fits_first : ChainFits 0 (boot 0) (small 2 97 1) :=
  (write_chain_fits_iff 0 (boot 0) (small 2 97 1) (by decide : (1 : UInt32) ≠ 0) (boot_free_slot 0)
    (boot_freshName 0 (small_name_ne_zero (by decide)))).mpr
    (.inl (by decide : (1 : UInt32).toNat ≤ 255 * 2048))

/-- A file of 257 clusters in the root of a new file system: the 8-bit count is 1, and the copy of the
last cluster runs past the end of `cluster_buf`. -/
theorem write_overruns_cluster_buf : (∃ n, ¬ (parentTable (boot 0) (small 2 97 526336) n).InUse) ∧
    FreshName (parentTable (boot 0) (small 2 97 526336)) (small 2 97 526336).name ∧
      ¬ ChainFits 0 (boot 0) (small 2 97 526336) := by
  have hfresh : FreshName (parentTable (boot 0) (small 2 97 526336)) (small 2 97 526336).name :=
    boot_freshName 0 (small_name_ne_zero (by decide))
  refine ⟨boot_free_slot 0, hfresh, ?_⟩
  rintro ⟨code, s', hw, -⟩
  rcases write_cases hw with ⟨hr, -⟩ | ⟨-, h0, -⟩ | ⟨-, hok, -⟩
  · cases hr with
    | unnamed h => exact small_name_ne_zero (by decide) h
    | parent h => exact absurd h (by decide)
    | taken h => exact h hfresh
    | full h =>
      rw [emptyCells_boot, List.length_range'] at h
      exact absurd h (by decide)
  · exact absurd h0 (by decide)
  · exact absurd hok.2 (by decide)

end KeropOS
