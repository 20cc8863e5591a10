import KeropOS.Fat.FileMap
import KeropOS.Fat.Calls

/-!
# New folders

`init_directory_table` sets entry 0 of `newDir` only; the other entries are what the stack holds there.

* `StepOn`: a call on a live directory, with any content of `newDir`; `CleanStack`: the content a folder
  `write` needs;
* `EmptyFolder`: what a new folder is to be;
* **`new_folder_empty_iff`**: in every state of every run with a clean stack, the next new folder is empty
  exactly when `newDir` is.
-/

namespace KeropOS

open Packed Linked Transition

/-! ## Runs -/

/-- A call on a live directory, its reply, and what `newDir` held. -/
def StepOn (s : Fs) (event : FAT32DirectoryTable × Call × Reply) (s' : Fs) : Prop :=
  Live s event.2.1.request.parent_cluster_number.toNat ∧
    ∃ fuel, execOn event.1 fuel s event.2.1 = .ok (event.2.2, s')

/-- `newDir` is zero but for entry 0. -/
def ZeroRest (newDir : FAT32DirectoryTable) : Prop := ∀ j, j ≠ 0 → newDir j = 0

/-- A folder `write` that returns 0 finds `newDir` zero. -/
def CleanStack : FAT32DirectoryTable × Call × Reply → Prop
  | (newDir, .write r, reply) => r.buffer_size = 0 → reply.code = 0 → ZeroRest newDir
  | _ => True

variable {s s' : Fs} {r : FAT32DriverRequest} {n : Fin 64}

/-- What a step with a clean stack does: nothing, or it adds the entry that it was asked for, or it clears
one. -/
theorem stepOn_asked {event : FAT32DirectoryTable × Call × Reply} (hs : Inv s) (h : StepOn s event s')
    (hclean : CleanStack event) : Untouched s s' ∨ (∃ r P n e cs data, event.2.1 = .write r ∧
      Added s s' P n e cs data ∧ Asked r e cs data) ∨ ∃ P i l, Cleared s s' P i l := by
  obtain ⟨newDir, call, reply⟩ := event
  obtain ⟨hlive, fuel, hexec⟩ := h
  cases call with
  | write r =>
    rw [execOn] at hexec
    split at hexec
    · exact absurd hexec (by simp)
    · rename_i code s₁ hw
      obtain ⟨rfl, rfl⟩ := Prod.mk.inj (Except.ok.inj hexec)
      rcases write_live hs hlive hclean hw with ⟨-, hu⟩ | ⟨-, n, e, cs, data, -, ha, hask⟩
      · exact .inl hu
      · exact .inr (.inl ⟨r, _, n, e, cs, data, rfl, ha, hask⟩)
  | delete r =>
    rcases delete_legal hs hlive hexec with ⟨-, rfl⟩ | ⟨-, i, l, -, hcl, -⟩
    · exact .inl (.refl s')
    · exact .inr (.inr ⟨_, i, l, hcl⟩)
  | read r =>
    rw [execOn] at hexec
    obtain rfl := read_unchanged hexec
    exact .inl (.refl s')
  | read_directory r =>
    rw [execOn] at hexec
    obtain rfl := read_directory_unchanged hexec
    exact .inl (.refl s')

/-- **What a step with a clean stack does**: nothing, or it adds one entry, or it clears one. -/
theorem stepOn_cases {event : FAT32DirectoryTable × Call × Reply} (hs : Inv s) (h : StepOn s event s')
    (hclean : CleanStack event) : Untouched s s' ∨ (∃ P n e cs data, Added s s' P n e cs data) ∨
      ∃ P i l, Cleared s s' P i l :=
  (stepOn_asked hs h hclean).imp_right (Or.imp_left fun ⟨_, P, n, e, cs, data, _, ha, _⟩ =>
    ⟨P, n, e, cs, data, ha⟩)

/-- **A step with a clean stack keeps the invariant.** -/
theorem inv_stepOn (s : Fs) (event : FAT32DirectoryTable × Call × Reply) (s' : Fs) (hs : Inv s)
    (h : StepOn s event s') (hclean : CleanStack event) : Inv s' := by
  rcases stepOn_cases hs h hclean with hu | ⟨P, n, e, cs, data, ha⟩ | ⟨P, i, l, hcl⟩
  · exact hu.inv hs
  · exact ha.inv hs
  · exact hcl.inv hs

theorem inv_of_runOn {d : Disk} {es : List (FAT32DirectoryTable × Call × Reply)}
    (h : Run StepOn (boot d) es s) (hclean : ∀ e ∈ es, CleanStack e) : Inv s :=
  h.invariant_mem Inv (fun s t e he hs hstep => inv_stepOn s e t hs hstep (hclean e he)) (inv_boot d)

/-! ## Empty folders -/

/-- The folder in slot `n`, new in `s'`, has no entry: a file written into it is found by `read`, and
`delete` of it returns 0. -/
structure EmptyFolder (s s' : Fs) (r : FAT32DriverRequest) (n : Fin 64) : Prop where
  slot : FirstFree (parentTable s r) n
  self : (tableAt s' (parentTable s' r n).cluster.toNat 0).InUse
  empty : ∀ j, j ≠ 0 → tableAt s' (parentTable s' r n).cluster.toNat j = 0
  found : ∀ (w : FAT32DriverRequest) newDir t, w.parent_cluster_number = (parentTable s' r n).cluster →
    w.buffer_size ≠ 0 → write newDir s' w = .ok (0, t) → ∃ buf, read t w = .ok (0, buf) ∧
      firstBytes w.buffer_size.toNat buf = firstBytes w.buffer_size.toNat w.buf
  deleted : ∀ q : FAT32DriverRequest, q.parent_cluster_number = r.parent_cluster_number → q.name = r.name →
    q.ext = 0 → ∃ t, delete 512 s' q = .ok (0, t)

/-- A file just written is found. -/
theorem Added.read_new {P : ℕ} {e : FAT32DirectoryEntry} {cs : List ℕ} {data : ℕ → Cluster}
    (h : Added s s' P n e cs data) (hs : Inv s) (hask : Asked r e cs data)
    (hP : r.parent_cluster_number.toNat = P) (hsize : r.buffer_size ≠ 0) :
    ∃ buf, read s' r = .ok (0, buf) ∧
      firstBytes r.buffer_size.toNat buf = firstBytes r.buffer_size.toNat r.buf := by
  have hnew := h.present_new hs hask hP
  rw [FAT32DriverRequest.made, if_neg hsize] at hnew
  have hlen : r.buffer_size.toNat = (firstBytes r.buffer_size.toNat r.buf).length := by
    rw [firstBytes, List.length_map, List.length_range]
  obtain ⟨buf, hread, hbytes⟩ := read_present (h.inv hs) hnew hlen
  exact ⟨buf, hread, by rwa [← hlen] at hbytes⟩

/-- The table of a new folder is `newDir` behind entry 0. -/
theorem WroteFolder.table {newDir : FAT32DirectoryTable} {i : ℕ} (h : WroteFolder newDir s s' r n i)
    (hs : Inv s) (hlive : Live s r.parent_cluster_number.toNat) {j : Fin 64} (hj : j ≠ 0) :
    tableAt s' (parentTable s' r n).cluster.toNat j = newDir j := by
  have hidx := clusterIndex_of_lt (hs.live_bounds hlive).2
  have hi := h.alloc.fresh i (by simp)
  have hne : i ≠ clusterIndex r.parent_cluster_number := by
    rintro rfl
    rw [hidx] at hi
    exact hs.live_cell_ne_zero hlive hi.2
  rw [parentTable, h.alloc.tableAt_parent, Function.update_self, cluster_folderEntry,
    toNat_ofNat_of_lt hi.1.2, tableAt, h.alloc.disk, if_neg hne, if_neg (by omega), if_pos (by simp),
    Layout.decode_encode, Function.update_of_ne hj]

/-- A folder added to the tree is empty. -/
theorem Added.emptyFolder {e : FAT32DirectoryEntry} {cs : List ℕ} {data : ℕ → Cluster}
    (h : Added s s' r.parent_cluster_number.toNat n e cs data) (hs : Inv s)
    (hn : FirstFree (tableAt s r.parent_cluster_number.toNat) n) (hask : Asked r e cs data)
    (hsize : r.buffer_size = 0) : EmptyFolder s s' r n := by
  have hidx := clusterIndex_of_lt (hs.live_bounds h.parent).2
  have he := hask.folder hsize
  have hattr : e.attr = ATTR_SUBDIRECTORY := by
    rw [he]
    rfl
  have hs' := h.inv hs
  have hnew : parentTable s' r n = e := by
    rw [parentTable, hidx, h.tableAt_new hs]
  obtain ⟨hlive', hempty⟩ := h.folder hs hattr
  refine ⟨by rwa [parentTable, hidx], hnew ▸ hs'.self hlive', hnew ▸ hempty,
    fun w newDir' t hP hw0 hww => ?_, fun q hqP hqn hqe => ?_⟩
  · rw [hnew] at hP
    have hP := congrArg UInt32.toNat hP
    rcases write_live hs' (hP ▸ hlive') (fun h0 => absurd h0 hw0) hww with
      ⟨hr, -⟩ | ⟨-, m, e', cs', data', -, hb, hask'⟩
    · exact absurd rfl hr.code_ne_zero
    · exact hb.read_new hs' hask' rfl hw0
  · have hroot := h.tableAt_new hs
    obtain ⟨t, -, hd, -⟩ := delete_held (r := q) hs' (congrArg UInt32.toNat hqP) (h.held_new hs)
      (by rw [hroot, hask.name, hqn]) (by rw [hroot, he, hqe]; rfl) fun _ => by
        rw [hroot, scan_folder_gt_one, hempty 1 (by decide)]
        exact not_inUse_zero
    exact ⟨t, hd⟩

/-- **When a new folder is empty**: `newDir` is zero behind entry 0. -/
theorem new_folder_empty_iff (d : Disk) (es : List (FAT32DirectoryTable × Call × Reply)) (s : Fs)
    (h : Run StepOn (boot d) es s) (hclean : ∀ e ∈ es, CleanStack e) (newDir : FAT32DirectoryTable) (s' : Fs)
    (r : FAT32DriverRequest) (hlive : Live s r.parent_cluster_number.toNat) (hsize : r.buffer_size = 0)
    (hw : write newDir s r = .ok (0, s')) :
    (∃ n, EmptyFolder s s' r n) ↔ ∀ j, j ≠ 0 → newDir j = 0 := by
  have hs := inv_of_runOn h hclean
  constructor
  · rintro ⟨n, hn⟩ j hj
    rcases write_cases hw with ⟨hr, -⟩ | ⟨-, -, m, i, hf⟩ | ⟨-, hok, -⟩
    · exact absurd rfl hr.code_ne_zero
    · obtain rfl := hn.slot.unique hf.ok.slot
      rw [← hf.table hs hlive hj]
      exact hn.empty j hj
    · rw [hsize] at hok
      exact absurd hok.1 (by decide)
  · intro hzero
    rcases write_live hs hlive (fun _ _ => hzero) hw with ⟨hr, -⟩ | ⟨-, n, e, cs, data, hn, ha, hask⟩
    · exact absurd rfl hr.code_ne_zero
    · exact ⟨n, ha.emptyFolder hs hn hask hsize⟩

/-! ## The first folder -/

theorem boot_write_folder (newDir : FAT32DirectoryTable) :
    ∃ s', write newDir (boot 0) (small 2 100 0) = .ok (0, s') := by
  have hname : (small 2 100 0).name ≠ 0 := small_name_ne_zero (by decide)
  refine write_ok newDir hname (by decide) (boot_freshName 0 hname) (boot_free_slot 0) (.inl rfl) ?_
  rw [emptyCells_boot, List.length_range']
  exact (by decide : cellsNeeded 0 ≤ 509)

theorem new_folder_empty_first : ∃ s', write 0 (boot 0) (small 2 100 0) = .ok (0, s') ∧
    ∃ n, EmptyFolder (boot 0) s' (small 2 100 0) n := by
  obtain ⟨s', hw⟩ := boot_write_folder 0
  exact ⟨s', hw, (new_folder_empty_iff 0 [] (boot 0) .nil (by simp) 0 s' (small 2 100 0) .root rfl hw).mpr
    fun _ _ => rfl⟩

/-- The stack after another table lay there: an entry of a file in slot 1. -/
def staleDir : FAT32DirectoryTable := Function.update 0 1 (fileEntry (small 2 97 1).name 0 1 3)

/-- The first folder, on that stack: the entry is in it. -/
theorem new_folder_shows_stack : ∃ s', write staleDir (boot 0) (small 2 100 0) = .ok (0, s') ∧
    ¬ ∃ n, EmptyFolder (boot 0) s' (small 2 100 0) n := by
  obtain ⟨s', hw⟩ := boot_write_folder staleDir
  refine ⟨s', hw, ?_⟩
  rintro ⟨n, hn⟩
  rcases write_cases hw with ⟨hr, -⟩ | ⟨-, -, m, i, hf⟩ | ⟨-, hok, -⟩
  · exact absurd rfl hr.code_ne_zero
  · obtain rfl := hn.slot.unique hf.ok.slot
    have hstale := hf.table (inv_boot 0) .root (j := 1) (by decide)
    rw [hn.empty 1 (by decide), staleDir, Function.update_self] at hstale
    exact not_inUse_zero (hstale ▸ (rfl : (fileEntry (small 2 97 1).name 0 1 3).InUse))
  · exact absurd hok.1 (by decide)

end KeropOS
