import KeropOS.Fat.Reading
import KeropOS.Fat.Calls

/-!
# No residue

On a drive that was zero at first, what is not in use stays zero.

* `Scrubbed`: the clusters of empty cells are zero; `TailsZero`: so are the bytes behind each file;
* **`no_residue`**: both hold in every state of every run, and `read` shows nothing else;
* **`write_then_delete`**: `delete` right after a `write` gives the disk and the table back.
-/

namespace KeropOS

open Packed Linked Transition

/-- The cluster of every empty cell is zero. -/
def Scrubbed (s : Fs) : Prop :=
  ∀ c, 3 ≤ c → c < 512 → cell s.cluster_map c = FAT32_FAT_EMPTY_ENTRY → clusterAt s.disk c = 0

/-- The last cluster of every file is zero behind the file. -/
def TailsZero (s : Fs) : Prop :=
  ∀ p i l, Held s p i → (tableAt s p i).attr ≠ ATTR_SUBDIRECTORY → Chain s p i l →
    ∀ a, (tableAt s p i).filesize.toNat ≤ a → a < l.length * 2048 → content s.disk l a = 0

variable {s s' : Fs} {r : FAT32DriverRequest} {p P : ℕ} {i n : Fin 64} {l : List ℕ}

/-! ## The new file system -/

theorem scrubbed_boot : Scrubbed (boot 0) := by
  intro c h3 _ _
  rw [boot_disk, if_neg (by omega), if_neg (by omega)]
  funext i
  rw [clusterAt, write_blocks, dif_neg]
  · rfl
  · rw [show ata_address 0 = 0 from rfl]
    omega

theorem tailsZero_boot (d : Disk) : TailsZero (boot d) := fun _ _ _ hp => absurd hp (boot_not_held d)

/-! ## Steps -/

theorem Untouched.scrubbed (h : Untouched s s') (hz : Scrubbed s) : Scrubbed s' := by
  intro c h3 h512 hc
  rw [h.map] at hc
  rw [h.disk]
  exact hz c h3 h512 hc

theorem Untouched.tailsZero (h : Untouched s s') (hz : TailsZero s) : TailsZero s' := by
  intro p i l hp hattr hl a ha hlt
  rw [h.tableAt] at hattr ha
  rw [h.disk]
  exact hz p i l (h.symm.held hp) hattr (h.chain.mp hl) a ha hlt

/-- A file has no cluster in common with a directory. -/
theorem Inv.file_not_live (hs : Inv s) (hp : Held s p i) (hattr : (tableAt s p i).attr ≠ ATTR_SUBDIRECTORY)
    (hl : Chain s p i l) {k : ℕ} (hk : k ∈ l) : ¬ Live s k :=
  fun hlive => hattr (hs.live_mem_chain hp hl hk hlive).1

section

variable {e : FAT32DirectoryEntry} {cs : List ℕ} {data : ℕ → Cluster}

theorem Added.scrubbed (h : Added s s' P n e cs data) (hs : Inv s) (hz : Scrubbed s) : Scrubbed s' := by
  intro c h3 h512 hc
  have hcs : c ∉ cs := fun hm =>
    (h.chain_new hs).cell_ne_zero (fun y hy => (h.bounds hs hy).1) hm hc
  have hcP : c ≠ P := by
    rintro rfl
    exact (h.inv hs).live_cell_ne_zero (h.live_of_live hs h.parent) hc
  rw [h.map, cell_linkCells_of_notMem hcs] at hc
  rw [h.disk, if_neg hcP, if_neg (by omega), if_neg hcs]
  exact hz c h3 h512 hc

theorem Added.tailsZero (h : Added s s' P n e cs data) (hs : Inv s) (hask : Asked r e cs data)
    (hz : TailsZero s) : TailsZero s' := by
  intro p i l hp hattr hl a ha hlt
  rcases h.held_cases hs hp with hp | ⟨rfl, rfl⟩
  · have heq := h.tableAt_held hs hp.live hp.inUse
    rw [heq] at hattr ha
    have hl := h.chain_eq hs hp hl
    rw [content_eq (fun k hk => h.disk_of_chain hs hp hl hk (hs.file_not_live hp hattr hl hk)) hlt]
    exact hz p i l hp hattr hl a ha hlt
  · -- the new file
    rw [h.tableAt_new hs] at hattr ha
    obtain rfl := (h.chain_new hs).unique hl
    rcases hask with ⟨-, he⟩ | ⟨-, he, hdata⟩
    · exact absurd (by rw [he]; rfl) hattr
    · have ha : r.buffer_size.toNat ≤ a := by
        rw [he] at ha
        exact ha
      rw [h.content_written hs hdata hlt, if_neg (not_lt.mpr ha)]

end

/-- A directory is not on the chain of one of its own entries. -/
theorem Inv.parent_notMem (hs : Inv s) (hp : Held s p i) (hl : Chain s p i l) : p ∉ l := by
  have hlive := hp.live
  induction hlive generalizing i l with
  | root =>
    intro hm
    obtain ⟨l₀, hl₀⟩ := hs.sound hp
    obtain rfl := hl₀.chain.unique hl
    have := (hl₀.bounds 2 hm).1
    omega
  | @sub q j hq hj hu ha ih =>
    intro hm
    have hsnd := hs.isFolder ⟨hq, hj, hu⟩ ha
    -- the entry of `p` would be its own parent's
    obtain ⟨hpq, rfl⟩ := hs.disjoint hp ⟨hq, hj, hu⟩ hl hsnd.chain hm (by simp)
    refine ih ⟨hq, hj, hu⟩ hsnd.chain ?_
    rw [hpq]
    exact List.mem_singleton_self q

theorem Cleared.scrubbed (h : Cleared s s' P n l) (hs : Inv s) (hz : Scrubbed s) : Scrubbed s' := by
  intro c h3 h512 hc
  rw [h.map] at hc
  by_cases hm : c ∈ l
  · have hcP : c ≠ P := by
      rintro rfl
      exact hs.parent_notMem h.held h.sound.chain hm
    rw [h.disk, if_neg hcP, if_neg (by omega), if_pos hm]
  · rw [if_neg hm] at hc
    have hcP : c ≠ P := by
      rintro rfl
      exact hs.live_cell_ne_zero h.held.live hc
    rw [h.disk, if_neg hcP, if_neg (by omega), if_neg hm]
    exact hz c h3 h512 hc

theorem Cleared.tailsZero (h : Cleared s s' P n l) (hs : Inv s) (hz : TailsZero s) : TailsZero s' := by
  intro p i l' hp hattr hl' a ha hlt
  obtain ⟨hp', -, -⟩ := h.held_cases hs hp
  rw [h.tableAt_held hs hp] at hattr ha
  have hl := h.chain_eq hs hp hl'
  rw [content_eq (fun k hk => h.disk_of_chain hs hp hl hk (hs.file_not_live hp' hattr hl hk)) hlt]
  exact hz p i l' hp' hattr hl a ha hlt

/-! ## Runs -/

/-- The invariant, with what is not in use zero. -/
structure Clean (s : Fs) : Prop extends Inv s where
  scrubbed : Scrubbed s
  tails : TailsZero s

/-- **A step keeps it.** -/
theorem clean_step (s : Fs) (event : Call × Reply) (s' : Fs) (hs : Clean s) (h : Step s event s') :
    Clean s' := by
  obtain ⟨hinv, hscrubbed, htails⟩ := hs
  have hinv' := inv_step s event s' hinv h
  suffices hzero : Scrubbed s' ∧ TailsZero s' from ⟨hinv', hzero.1, hzero.2⟩
  obtain ⟨call, reply⟩ := event
  obtain ⟨hlegal, fuel, hexec⟩ := h
  cases call with
  | write r =>
    rcases write_legal hinv hlegal hexec with ⟨-, hu⟩ | ⟨-, n, e, cs, data, ha, hask⟩
    · exact ⟨hu.scrubbed hscrubbed, hu.tailsZero htails⟩
    · exact ⟨ha.scrubbed hinv hscrubbed, ha.tailsZero hinv hask htails⟩
  | delete r =>
    rcases delete_legal hinv hlegal hexec with ⟨-, rfl⟩ | ⟨-, i, l, -, hcl, -⟩
    · exact ⟨hscrubbed, htails⟩
    · exact ⟨hcl.scrubbed hinv hscrubbed, hcl.tailsZero hinv htails⟩
  | read r =>
    obtain rfl := read_unchanged hexec
    exact ⟨hscrubbed, htails⟩
  | read_directory r =>
    obtain rfl := read_directory_unchanged hexec
    exact ⟨hscrubbed, htails⟩

theorem clean_of_run {es : List (Call × Reply)} (h : Run Step (boot 0) es s) : Clean s :=
  h.invariant Clean clean_step ⟨inv_boot 0, scrubbed_boot, tailsZero_boot 0⟩

/-- What is not in use is zero, and `read` of a file stores nothing else behind its bytes. -/
structure NoResidue (s : Fs) : Prop where
  scrubbed : Scrubbed s
  tails : TailsZero s
  reads : ∀ r i code buf, Names s r i → (named s r i).attr ≠ ATTR_SUBDIRECTORY → read s r = .ok (code, buf) →
    ∀ a, (named s r i).filesize.toNat ≤ a → buf a = r.buf a ∨ buf a = 0

/-- **No residue**, in every state of every run on a drive of zeros. -/
theorem no_residue (es : List (Call × Reply)) (s : Fs) (h : Run Step (boot 0) es s) : NoResidue s := by
  have hs := clean_of_run h
  refine ⟨hs.scrubbed, hs.tails, fun r i code buf hi hattr hread a ha => ?_⟩
  by_cases hname : r.name = 0
  · rw [read, if_pos (by simpa using hname)] at hread
    obtain ⟨-, rfl⟩ := Prod.mk.inj (Except.ok.inj hread)
    exact .inl rfl
  by_cases hsize : r.buffer_size = 0
  · rw [read, if_neg (by simpa using hname), if_pos hsize] at hread
    obtain ⟨-, rfl⟩ := Prod.mk.inj (Except.ok.inj hread)
    exact .inl rfl
  · obtain ⟨l, hl⟩ := hs.wellFormed.chains hi.held
    rw [read_named hs.wellFormed hname hsize hi hl] at hread
    obtain ⟨-, rfl⟩ := Prod.mk.inj (Except.ok.inj hread)
    rw [copyChain]
    split_ifs with hlt
    · -- a byte of the chain
      have hle : copied r l ≤ l.length := Nat.min_le_right _ _
      exact .inr (hs.tails _ i l hi.held hattr hl.chain a ha (by omega))
    · exact .inl rfl

/-- A file is written, and deleted again. -/
theorem no_residue_deleted : ∃ q q' s t, Step (boot 0) (.write firstFile, q) s ∧ q.code = 0 ∧ Held s 2 1 ∧
    Step s (.delete firstFile, q') t ∧ q'.code = 0 ∧ NoResidue t := by
  obtain ⟨q, s, c, hstep, hcode, hs, hheld, htable, -⟩ := boot_firstFile_table
  have hentry : tableAt s 2 1 = fileEntry firstFile.name firstFile.ext 5 c := by
    rw [htable, Function.update_self]
  obtain ⟨q', t, hstep', hcode', -⟩ := delete_succeeds (P := 2) (r := firstFile) hs rfl hheld
    (by rw [hentry]; rfl) (by rw [hentry]; rfl) fun hattr => absurd hattr (by
      rw [hentry]
      exact attr_fileEntry _ _ _ _)
  exact ⟨q, q', s, t, hstep, hcode, hheld, hstep', hcode', no_residue _ t ((Run.single hstep).snoc hstep')⟩

/-! ## Write, then delete -/

/-- **`delete` undoes `write`.** -/
theorem Added.undone {e : FAT32DirectoryEntry} {cs : List ℕ} {data : ℕ → Cluster} {t : Fs}
    (h : Added s s' P n e cs data) (hs : Clean s) (hd : Cleared s' t P n l) :
    t.disk = s.disk ∧ t.cluster_map = s.cluster_map := by
  have hs' := h.inv hs.toInv
  obtain rfl := (h.chain_new hs.toInv).unique hd.sound.chain
  have hmap : t.cluster_map = s.cluster_map := by
    refine clusterMap_ext fun k => ?_
    rw [hd.map]
    split_ifs with hk
    · exact (h.fresh k hk).2.symm
    · rw [h.map, cell_linkCells_of_notMem hk]
  refine ⟨disk_ext fun k => ?_, hmap⟩
  rw [hd.disk]
  split_ifs with hP h1 hk
  · -- the parent: the slot was zero before
    subst hP
    rw [h.tableAt_live hs.toInv h.parent, if_pos rfl, Function.update_idem,
      ← hs.free h.parent h.vacant, Function.update_eq_self]
    exact Layout.encode_decode _ _
  · rw [h1, hmap, hs.fat]
  · have hb := h.bounds hs.toInv hk
    exact (hs.scrubbed k hb.1 hb.2 (h.fresh k hk).2).symm
  · rw [h.disk, if_neg hP, if_neg h1, if_neg hk]

/-- **Write, then delete**: after a `write` that returns 0, `delete` of the same name, extension and
parent returns 0, and the disk and the cached table are as before the `write`. -/
theorem write_then_delete (es : List (Call × Reply)) (s s' : Fs) (r q : FAT32DriverRequest) (reply : Reply)
    (h : Run Step (boot 0) es s) (hext : r.buffer_size = 0 → r.ext = 0) (hw : Step s (.write r, reply) s')
    (hcode : reply.code = 0) (hn : q.name = r.name) (he : q.ext = r.ext)
    (hP : q.parent_cluster_number = r.parent_cluster_number) :
    ∃ t, delete 512 s' q = .ok (0, t) ∧ t.disk = s.disk ∧ t.cluster_map = s.cluster_map := by
  have hs := clean_of_run h
  obtain ⟨hlegal, fuel, hexec⟩ := hw
  rcases write_legal hs.toInv hlegal hexec with ⟨hr, -⟩ | ⟨-, n, e, cs, data, ha, hask⟩
  · exact absurd hcode hr.code_ne_zero
  have hnew := ha.tableAt_new hs.toInv
  have hen : e.name = q.name := by rw [hask.name, hn]
  have hee : e.ext = q.ext := by
    rcases hask with ⟨h0, he'⟩ | ⟨-, he', -⟩
    · rw [he, hext h0, he']
      rfl
    · rw [he, he']
      rfl
  obtain ⟨t, l, hd, -, hcl⟩ := delete_held (r := q) (ha.inv hs.toInv) (congrArg UInt32.toNat hP)
    (ha.held_new hs.toInv) (by rw [hnew, hen]) (by rw [hnew, hee]) fun hattr => by
      rw [hnew] at hattr ⊢
      rw [scan_folder_gt_one, (ha.folder hs.toInv hattr).2 1 (by decide)]
      exact not_inUse_zero
  exact ⟨t, hd, ha.undone hs hcl⟩

theorem write_then_delete_firstFile : ∃ reply s', Step (boot 0) (.write firstFile, reply) s' ∧
    ∃ t, delete 512 s' firstFile = .ok (0, t) ∧ t.disk = (boot 0).disk ∧
      t.cluster_map = (boot 0).cluster_map := by
  obtain ⟨reply, s', hstep, hcode⟩ := boot_firstFile
  exact ⟨reply, s', hstep, write_then_delete [] (boot 0) s' firstFile firstFile reply .nil
    (fun h => absurd h (by decide)) hstep hcode rfl rfl rfl⟩

end KeropOS
