import KeropOS.Fat.Run

/-!
# The clusters are partitioned

* `EmptyFolders`: only empty folders are deleted; `NoLeak`: every cell in use lies on a chain;
* **`clusters_partitioned`**: in every state of such a run the chains of the live entries partition
  the clusters in use.
* **`remount_is_noop`**: in every state of every run the disk holds the cached table.
-/

namespace KeropOS

open Packed Linked Transition

/-- A `delete` that returns 0 deletes no folder with an entry in use. -/
def EmptyFolders (s : Fs) : Call × Reply → Prop
  | (.delete r, reply) => reply.code = 0 → ∀ i, i ≠ 0 →
      (tableAt s r.parent_cluster_number.toNat i).name = r.name →
      (tableAt s r.parent_cluster_number.toNat i).ext = r.ext →
      (tableAt s r.parent_cluster_number.toNat i).attr = ATTR_SUBDIRECTORY →
      ∀ j, j ≠ 0 → ¬ (tableAt s (tableAt s r.parent_cluster_number.toNat i).cluster.toNat j).InUse
  | _ => True

/-- A step that deletes empty folders only. -/
def StepEmpty (s : Fs) (event : Call × Reply) (s' : Fs) : Prop :=
  Step s event s' ∧ EmptyFolders s event

/-- Every cell in use lies on the chain of a live entry. -/
def NoLeak (s : Fs) : Prop :=
  ∀ c, 3 ≤ c → c < 512 → cell s.cluster_map c ≠ 0 → ∃ p i l, Held s p i ∧ Chain s p i l ∧ c ∈ l

theorem noLeak_boot (d : Disk) : NoLeak (boot d) := by
  intro c h3 h512 hc
  rw [boot_map, cell_setCell_ne _ (by omega), cell_setCell_ne _ (by omega), cell_setCell_ne _ (by omega),
    cell_of_lt _ h512] at hc
  exact absurd rfl hc

variable {s s' : Fs} {p P : ℕ} {i n : Fin 64} {l : List ℕ}

theorem SameFiles.noLeak (h : SameFiles s s') (hn : NoLeak s) : NoLeak s' := by
  intro c h3 h512 hc
  rw [h.map] at hc
  obtain ⟨p, i, l, hp, hl, hm⟩ := hn c h3 h512 hc
  exact ⟨p, i, l, h.held hp, h.chain.mpr hl, hm⟩

theorem Untouched.noLeak (h : Untouched s s') (hn : NoLeak s) : NoLeak s' := h.sameFiles.noLeak hn

theorem Added.noLeak {e : FAT32DirectoryEntry} {cs : List ℕ} {data : ℕ → Cluster}
    (h : Added s s' P n e cs data) (hs : Inv s) (hn : NoLeak s) : NoLeak s' := by
  intro c h3 h512 hc
  by_cases hm : c ∈ cs
  · exact ⟨P, n, cs, h.held_new hs, h.chain_new hs, hm⟩
  · rw [h.map, cell_linkCells_of_notMem hm] at hc
    obtain ⟨p, i, l, hp, hl, hm⟩ := hn c h3 h512 hc
    exact ⟨p, i, l, h.held_of_held hs hp, h.chain_of_chain hs hp hl, hm⟩

section

variable (h : Cleared s s' P n l) (hs : Inv s)
  (hempty : (tableAt s P n).attr = ATTR_SUBDIRECTORY →
    ∀ j, j ≠ 0 → ¬ (tableAt s (tableAt s P n).cluster.toNat j).InUse)

include h hs hempty

/-- A directory with an entry in use is not the one deleted. -/
theorem Cleared.notMem_of_held (hp : Held s p i) : p ∉ l := by
  intro hm
  obtain ⟨hattr, -, hcl⟩ := hs.live_mem_chain h.held h.sound.chain hm hp.live
  exact hempty hattr i hp.slot (hcl ▸ hp.inUse)

/-- The other directories stay live. -/
theorem Cleared.live_of_live (hp : Live s p) (hpl : p ∉ l) : Live s' p := by
  induction hp with
  | root => exact .root
  | @sub q j hq hj hu ha ih =>
    have hheld : Held s q j := ⟨hq, hj, hu⟩
    have hql := h.notMem_of_held hs hempty hheld
    have hne : ¬ (q = P ∧ j = n) := by
      rintro ⟨rfl, rfl⟩
      exact hpl h.sound.chain.head_mem
    have heq := h.tableAt_ne hs hq hql hne
    rw [← heq] at hu ha ⊢
    exact .sub (ih hql) hj hu ha

theorem Cleared.held_of_held (hp : Held s p i) (hne : ¬ (p = P ∧ i = n)) : Held s' p i := by
  have hpl := h.notMem_of_held hs hempty hp
  refine ⟨h.live_of_live hs hempty hp.live hpl, hp.slot, ?_⟩
  rw [h.tableAt_ne hs hp.live hpl hne]
  exact hp.inUse

theorem Cleared.noLeak (hn : NoLeak s) : NoLeak s' := by
  intro c h3 h512 hc
  rw [h.map] at hc
  split_ifs at hc with hm
  · exact absurd rfl hc
  · obtain ⟨p, i, l', hp, hl', hm'⟩ := hn c h3 h512 hc
    have hne : ¬ (p = P ∧ i = n) := by
      rintro ⟨rfl, rfl⟩
      exact hm (hl'.unique h.sound.chain ▸ hm')
    have hp' := h.held_of_held hs hempty hp hne
    exact ⟨p, i, l', hp', h.chain_of_chain hs hp' hl', hm'⟩

end

/-- **A step that deletes empty folders only leaks nothing.** -/
theorem noLeak_step (s : Fs) (event : Call × Reply) (s' : Fs) (hs : Inv s ∧ NoLeak s)
    (h : StepEmpty s event s') : Inv s' ∧ NoLeak s' := by
  refine ⟨inv_step s event s' hs.1 h.1, ?_⟩
  obtain ⟨call, reply⟩ := event
  obtain ⟨⟨hlegal, fuel, hexec⟩, hempty⟩ := h
  cases call with
  | write r =>
    rcases write_legal hs.1 hlegal hexec with ⟨-, hu⟩ | ⟨-, n, e, cs, data, ha, -⟩
    · exact hu.noLeak hs.2
    · exact ha.noLeak hs.1 hs.2
  | delete r =>
    rcases delete_legal hs.1 hlegal hexec with ⟨-, rfl⟩ | ⟨hcode, i, l, hi, hcl, -⟩
    · exact hs.2
    · obtain ⟨hi0, hname, hext⟩ := hi.spec
      exact hcl.noLeak hs.1 (hempty hcode i hi0 hname hext) hs.2
  | read r =>
    obtain rfl := read_unchanged hexec
    exact hs.2
  | read_directory r =>
    obtain rfl := read_directory_unchanged hexec
    exact hs.2

theorem inv_noLeak_of_run {d : Disk} {es : List (Call × Reply)} (h : Run StepEmpty (boot d) es s) :
    Inv s ∧ NoLeak s :=
  h.invariant (fun s => Inv s ∧ NoLeak s) noLeak_step ⟨inv_boot d, noLeak_boot d⟩

/-! ## Main results -/

/-- Entry `i` of `p` heads the chain `l` of the length its kind asks for, inside `[3, 512)`. -/
structure OwnChain (s : Fs) (p : ℕ) (i : Fin 64) (l : List ℕ) : Prop where
  chain : FatChain s.cluster_map (tableAt s p i).cluster.toNat l
  ends : ∃ k c, l = k ++ [c] ∧ cell s.cluster_map c = FAT32_FAT_END_OF_FILE
  bounds : ∀ k ∈ l, 3 ≤ k ∧ k < 512
  nodup : l.Nodup
  length : l.length = if (tableAt s p i).attr = ATTR_SUBDIRECTORY then 1
    else clustersFor (tableAt s p i).filesize.toNat

theorem Sound.ownChain (h : Sound s p i l) : OwnChain s p i l where
  chain := h.chain
  ends := by
    obtain ⟨k, c, hk, hc⟩ := h.chain.ends
    exact ⟨k, c, hk, next_eq_none.mp hc⟩
  bounds := h.bounds
  nodup := h.chain.nodup
  length := by
    rcases h.kind with hf | hd
    · rw [if_neg hf.attr, hf.cells]
    · rw [if_pos hd.attr, hd.cells]

/-- The chains of the live entries partition the clusters in use, and the folders lead back to
their parents. -/
structure Partitioned (s : Fs) : Prop where
  chains : ∀ p i, Held s p i → ∃ l, OwnChain s p i l
  disjoint : ∀ p i q j l l' x, Held s p i → Held s q j → OwnChain s p i l → OwnChain s q j l' →
    x ∈ l → x ∈ l' → p = q ∧ i = j
  owned : ∀ c, 3 ≤ c → c < 512 → cell s.cluster_map c ≠ FAT32_FAT_EMPTY_ENTRY →
    ∃! owner : ℕ × Fin 64, Held s owner.1 owner.2 ∧ ∃ l, OwnChain s owner.1 owner.2 l ∧ c ∈ l
  parent : ∀ c, Live s c → c ≠ 2 → ∃ p i, Held s p i ∧ (tableAt s p i).attr = ATTR_SUBDIRECTORY ∧
    (tableAt s p i).cluster.toNat = c ∧ (tableAt s c 0).name = (tableAt s p i).name ∧
    (tableAt s c 0).cluster.toNat = p

/-- **The chains of the live entries partition the clusters in use**, in every state of every run
that deletes empty folders only. -/
theorem clusters_partitioned (d : Disk) (es : List (Call × Reply)) (s : Fs)
    (h : Run StepEmpty (boot d) es s) : Partitioned s := by
  obtain ⟨hs, hn⟩ := inv_noLeak_of_run h
  refine ⟨fun p i hp => (hs.sound hp).imp fun l hl => hl.ownChain,
    fun p i q j l l' x hp hq hl hl' => hs.disjoint hp hq hl.chain hl'.chain, fun c h3 h512 hc => ?_,
    fun c hlive hc => ?_⟩
  · obtain ⟨p, i, l, hp, hl, hm⟩ := hn c h3 h512 hc
    obtain ⟨l₀, hl₀⟩ := hs.sound hp
    obtain rfl := hl.unique hl₀.chain
    refine ⟨(p, i), ⟨hp, l, hl₀.ownChain, hm⟩, ?_⟩
    rintro ⟨q, j⟩ ⟨hq, l', hl', hm'⟩
    obtain ⟨rfl, rfl⟩ := hs.disjoint hp hq hl hl'.chain hm hm'
    rfl
  · rcases hs.live_cases hlive with rfl | ⟨p, i, hp, hattr, hcl, hsnd⟩
    · exact absurd rfl hc
    · rcases hsnd.kind with hf | hd
      · exact absurd hattr hf.attr
      · have hself := hd.self
        rw [hcl] at hself
        refine ⟨p, i, hp, hattr, hcl, by rw [hself]; rfl, ?_⟩
        rw [hself, cluster_folderEntry, toNat_ofNat_of_lt (hs.live_bounds hp.live).2]

theorem clusters_partitioned_firstFile : ∃ reply s,
    Run StepEmpty (boot 0) [(.write firstFile, reply)] s ∧ reply.code = 0 ∧ Partitioned s := by
  obtain ⟨reply, s, hstep, hcode⟩ := boot_firstFile
  have hrun : Run StepEmpty (boot 0) [(.write firstFile, reply)] s := .single ⟨hstep, trivial⟩
  exact ⟨reply, s, hrun, hcode, clusters_partitioned 0 _ s hrun⟩

/-- What a remount at this point finds and does. -/
structure Remounts (s : Fs) : Prop where
  fat : read_clusters s.disk FAT_CLUSTER_NUMBER = fatLayout.encode s.cluster_map
  signature : read_blocks s.disk 0 1 = fs_signature
  formatted : is_empty_storage s.disk = false
  noop : initialize_filesystem_fat32 s = s
  same : ∀ fuel call, exec fuel (initialize_filesystem_fat32 s) call = exec fuel s call

/-- **Remounting is a no-op**, in every state of every run. -/
theorem remount_is_noop (d : Disk) (es : List (Call × Reply)) (s : Fs) (h : Run Step (boot d) es s) :
    Remounts s := by
  have hs := inv_of_run h
  have hfat : read_clusters s.disk FAT_CLUSTER_NUMBER = fatLayout.encode s.cluster_map := by
    rw [read_clusters_eq]
    exact hs.fat
  have hempty : is_empty_storage s.disk = false := by
    rw [is_empty_storage, hs.signature]
    simp
  have hinit : initialize_filesystem_fat32 s = s := by
    rw [initialize_filesystem_fat32, hempty, if_neg (by simp)]
    rw [show read_clusters s.disk 1 = fatLayout.encode s.cluster_map from hfat, Layout.decode_encode]
  exact ⟨hfat, hs.signature, hempty, hinit, fun fuel call => by rw [hinit]⟩

theorem remount_is_noop_firstFile : ∃ reply s,
    Run Step (boot 0) [(.write firstFile, reply)] s ∧ reply.code = 0 ∧ Remounts s := by
  obtain ⟨reply, s, hstep, hcode⟩ := boot_firstFile
  have hrun := Run.single hstep
  exact ⟨reply, s, hrun, hcode, remount_is_noop 0 _ s hrun⟩

end KeropOS
