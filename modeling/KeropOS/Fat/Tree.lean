import KeropOS.Fat.Spec

/-!
# The tree of directories

* `Live`: the clusters of the live directories;
* `Held`: an entry in use of a live directory, at slots 1 to 63;
* `Sound`: the entry heads a chain of its own length;
* **`Inv`**: the invariant of the file system;
* **`Added.inv`**, **`Cleared.inv`**: `write` and `delete` keep it.
-/

namespace KeropOS

open Packed Linked

/-! ## Live directories -/

/-- The clusters of the directories reachable from the root. -/
inductive Live (s : Fs) : ℕ → Prop
  | root : Live s 2
  | sub {p : ℕ} {i : Fin 64} : Live s p → i ≠ 0 → (tableAt s p i).InUse →
      (tableAt s p i).attr = ATTR_SUBDIRECTORY → Live s (tableAt s p i).cluster.toNat

/-- Slot `i` of the live directory `p` holds an entry. -/
structure Held (s : Fs) (p : ℕ) (i : Fin 64) : Prop where
  live : Live s p
  slot : i ≠ 0
  inUse : (tableAt s p i).InUse

/-- Entry `i` of `p` heads the chain `l`. -/
abbrev Chain (s : Fs) (p : ℕ) (i : Fin 64) (l : List ℕ) : Prop :=
  FatChain s.cluster_map (tableAt s p i).cluster.toNat l

/-- The entry is one that `write` makes for a file with `cells` clusters. -/
structure IsFile (e : FAT32DirectoryEntry) (cells : ℕ) : Prop where
  eq : e = fileEntry e.name e.ext e.filesize e.cluster
  size : SizeOk e.filesize
  cells : cells = clustersFor e.filesize.toNat

/-- The entry is one that `write` makes for a folder; `t` is the table of the folder, `p` the
cluster of its parent. -/
structure IsFolder (e : FAT32DirectoryEntry) (cells : ℕ) (t : FAT32DirectoryTable) (p : ℕ) : Prop where
  eq : e = folderEntry e.name 0 e.cluster
  cells : cells = 1
  self : t 0 = folderEntry e.name 0 (UInt32.ofNat p)

/-- Slot `i` of `p` heads a chain of the clusters it needs. -/
structure Sound (s : Fs) (p : ℕ) (i : Fin 64) (l : List ℕ) : Prop where
  name : (tableAt s p i).name ≠ 0
  chain : Chain s p i l
  bounds : ∀ k ∈ l, 3 ≤ k ∧ k < 512
  kind : IsFile (tableAt s p i) l.length ∨
    IsFolder (tableAt s p i) l.length (tableAt s (tableAt s p i).cluster.toNat) p

/-- **The invariant of the file system.** Clusters that no live directory leads to may be lost, so
it holds also after a folder with entries was deleted. -/
structure Inv (s : Fs) : Prop where
  signature : read_blocks s.disk 0 1 = fs_signature
  fat : clusterAt s.disk 1 = fatLayout.encode s.cluster_map
  root : cell s.cluster_map 2 = FAT32_FAT_END_OF_FILE
  self : ∀ {p}, Live s p → (tableAt s p 0).InUse
  free : ∀ {p i}, Live s p → ¬ (tableAt s p i).InUse → tableAt s p i = 0
  sound : ∀ {p i}, Held s p i → ∃ l, Sound s p i l
  disjoint : ∀ {p q i j l l' x}, Held s p i → Held s q j → Chain s p i l → Chain s q j l' →
    x ∈ l → x ∈ l' → p = q ∧ i = j
  names : ∀ {p i j}, Held s p i → Held s p j → (tableAt s p i).name = (tableAt s p j).name → i = j

theorem attr_fileEntry (name : Bytes 8) (ext : Bytes 3) (size c : UInt32) :
    (fileEntry name ext size c).attr ≠ ATTR_SUBDIRECTORY := by
  simp only [fileEntry]
  decide

theorem IsFile.attr {e : FAT32DirectoryEntry} {n : ℕ} (h : IsFile e n) : e.attr ≠ ATTR_SUBDIRECTORY := by
  rw [h.eq]
  exact attr_fileEntry _ _ _ _

theorem IsFolder.attr {e : FAT32DirectoryEntry} {n p : ℕ} {t : FAT32DirectoryTable}
    (h : IsFolder e n t p) : e.attr = ATTR_SUBDIRECTORY := by
  rw [h.eq]
  rfl

theorem not_inUse_zero : ¬ (0 : FAT32DirectoryEntry).InUse := by decide

namespace Inv

variable {s s' : Fs} {p q P : ℕ} {i j n : Fin 64} {l l' : List ℕ} {x : ℕ}

/-- The folder behind a folder entry. -/
theorem isFolder (hs : Inv s) (h : Held s p i) (hattr : (tableAt s p i).attr = ATTR_SUBDIRECTORY) :
    Sound s p i [(tableAt s p i).cluster.toNat] := by
  obtain ⟨l, hl⟩ := hs.sound h
  rcases hl.kind with hf | hd
  · exact absurd hattr hf.attr
  · obtain ⟨t, ht⟩ := hl.chain.eq_cons
    have : t = [] := by
      have := hd.cells
      rw [ht, List.length_cons] at this
      exact List.length_eq_zero_iff.mp (by omega)
    rw [this] at ht
    exact ht ▸ hl

/-- A live directory is the root or the folder of an entry. -/
theorem live_cases (hs : Inv s) (h : Live s p) :
    p = 2 ∨ ∃ q j, Held s q j ∧ (tableAt s q j).attr = ATTR_SUBDIRECTORY ∧
      (tableAt s q j).cluster.toNat = p ∧ Sound s q j [p] := by
  cases h with
  | root => exact .inl rfl
  | sub hq hi hu ha => exact .inr ⟨_, _, ⟨hq, hi, hu⟩, ha, rfl, hs.isFolder ⟨hq, hi, hu⟩ ha⟩

theorem live_bounds (hs : Inv s) (h : Live s p) : 2 ≤ p ∧ p < 512 := by
  rcases hs.live_cases h with rfl | ⟨q, j, -, -, -, hsnd⟩
  · omega
  · have := hsnd.bounds p (by simp)
    omega

/-- The cell of a live directory ends its chain. -/
theorem live_cell (hs : Inv s) (h : Live s p) : cell s.cluster_map p = FAT32_FAT_END_OF_FILE := by
  rcases hs.live_cases h with rfl | ⟨q, j, -, -, hq, hsnd⟩
  · exact hs.root
  · have hc := hsnd.chain
    rw [Chain, hq] at hc
    cases hc with
    | last hn => exact next_eq_none.mp hn
    | link _ ht => exact absurd ht.length_pos (by simp)

theorem live_cell_ne_zero (hs : Inv s) (h : Live s p) : cell s.cluster_map p ≠ 0 := by
  rw [hs.live_cell h]
  decide

/-- The chains of held entries have no empty cell. -/
theorem chain_cell_ne_zero (hs : Inv s) (h : Held s p i) (hc : Chain s p i l) (hx : x ∈ l) :
    cell s.cluster_map x ≠ 0 := by
  obtain ⟨l₀, hl₀⟩ := hs.sound h
  obtain rfl := hl₀.chain.unique hc
  exact hc.cell_ne_zero (fun y hy => (hl₀.bounds y hy).1) hx

/-- A live directory lies on no chain but the one of its own entry. -/
theorem live_mem_chain (hs : Inv s) (h : Held s p i) (hc : Chain s p i l) (hx : x ∈ l)
    (hlive : Live s x) :
    (tableAt s p i).attr = ATTR_SUBDIRECTORY ∧ l = [x] ∧ (tableAt s p i).cluster.toNat = x := by
  obtain ⟨l₀, hl₀⟩ := hs.sound h
  obtain rfl := hl₀.chain.unique hc
  rcases hs.live_cases hlive with rfl | ⟨q, j, hq, hattr, hcl, hsnd⟩
  · have := (hl₀.bounds 2 hx).1
    omega
  · obtain ⟨rfl, rfl⟩ := hs.disjoint h hq hc hsnd.chain hx (by simp)
    exact ⟨hattr, hc.unique hsnd.chain, hcl⟩

end Inv

/-! ## Adding an entry -/

/-- A legal `write` that returns 0: its effect, and what `write` knows about the new entry. -/
structure Added (s s' : Fs) (P : ℕ) (n : Fin 64) (e : FAT32DirectoryEntry) (cs : List ℕ)
    (data : ℕ → Cluster) : Prop extends Allocated s s' P n e cs data where
  parent : Live s P
  slot : n ≠ 0
  vacant : ¬ (tableAt s P n).InUse
  inUse : e.InUse
  name : e.name ≠ 0
  fresh_name : FreshName (tableAt s P) e.name
  kind : IsFile e cs.length ∨
    (IsFolder e cs.length (tableLayout.decode (data e.cluster.toNat)) P ∧
      ∀ j, j ≠ 0 → tableLayout.decode (data e.cluster.toNat) j = 0)

namespace Added

variable {s s' : Fs} {p q P : ℕ} {i j n : Fin 64} {l : List ℕ} {x : ℕ} {e : FAT32DirectoryEntry}
  {cs : List ℕ} {data : ℕ → Cluster}

theorem head_mem (h : Added s s' P n e cs data) : e.cluster.toNat ∈ cs := by
  obtain ⟨t, ht⟩ := h.head
  rw [ht]
  simp

theorem bounds (h : Added s s' P n e cs data) (hs : Inv s) (hx : x ∈ cs) : 3 ≤ x ∧ x < 512 := by
  have hx' := h.fresh x hx
  have : x ≠ 2 := by
    rintro rfl
    rw [hs.root] at hx'
    exact absurd hx'.2 (by decide)
  omega

theorem live_notMem (h : Added s s' P n e cs data) (hs : Inv s) (hp : Live s p) : p ∉ cs :=
  fun hm => hs.live_cell_ne_zero hp (h.fresh p hm).2

/-- The old directories keep their tables, but for the new slot. -/
theorem tableAt_live (h : Added s s' P n e cs data) (hs : Inv s) (hp : Live s p) :
    tableAt s' p = if p = P then Function.update (tableAt s P) n e else tableAt s p := by
  have hb := hs.live_bounds hp
  have hd := h.disk p
  rw [if_neg (show p ≠ 1 by omega), if_neg (h.live_notMem hs hp)] at hd
  rw [tableAt, hd]
  split_ifs
  · exact Layout.decode_encode _ _
  · rfl

theorem tableAt_new (h : Added s s' P n e cs data) (hs : Inv s) : tableAt s' P n = e := by
  rw [h.tableAt_live hs h.parent, if_pos rfl, Function.update_self]

/-- Entries in use do not change. -/
theorem tableAt_held (h : Added s s' P n e cs data) (hs : Inv s) (hp : Live s p)
    (hu : (tableAt s p i).InUse) : tableAt s' p i = tableAt s p i := by
  rw [h.tableAt_live hs hp]
  split_ifs with hpP
  · subst hpP
    exact Function.update_of_ne (fun hi : i = n => h.vacant (hi ▸ hu)) _ _
  · rfl

theorem tableAt_folder (h : Added s s' P n e cs data) (hs : Inv s) :
    tableAt s' e.cluster.toNat = tableLayout.decode (data e.cluster.toNat) := by
  have hb := h.bounds hs h.head_mem
  have hne : e.cluster.toNat ≠ P := fun hm => h.live_notMem hs h.parent (hm ▸ h.head_mem)
  rw [tableAt, h.disk, if_neg hne, if_neg (by omega), if_pos h.head_mem]

/-- No directory is lost. -/
theorem live_of_live (h : Added s s' P n e cs data) (hs : Inv s) (hp : Live s p) : Live s' p := by
  induction hp with
  | root => exact .root
  | sub hq hi hu ha ih =>
    have heq := h.tableAt_held hs hq hu
    rw [← heq] at hu ha ⊢
    exact .sub ih hi hu ha

theorem held_of_held (h : Added s s' P n e cs data) (hs : Inv s) (hp : Held s p i) : Held s' p i :=
  ⟨h.live_of_live hs hp.live, hp.slot, by rw [h.tableAt_held hs hp.live hp.inUse]; exact hp.inUse⟩

theorem held_new (h : Added s s' P n e cs data) (hs : Inv s) : Held s' P n :=
  ⟨h.live_of_live hs h.parent, h.slot, by rw [h.tableAt_new hs]; exact h.inUse⟩

/-- **The new entry and its folder are all that is added.** -/
theorem live_cases (h : Added s s' P n e cs data) (hs : Inv s) (hp : Live s' p) :
    Live s p ∨ (p = e.cluster.toNat ∧ IsFolder e cs.length (tableAt s' p) P ∧
      ∀ j, j ≠ 0 → tableAt s' p j = 0) := by
  have hnew : ∀ {q : ℕ}, (q = e.cluster.toNat ∧ IsFolder e cs.length (tableAt s' q) P ∧
      ∀ j, j ≠ 0 → tableAt s' q j = 0) → ∀ {j}, j ≠ 0 → ¬ (tableAt s' q j).InUse := by
    rintro q ⟨-, -, hz⟩ j hj
    rw [hz j hj]
    exact not_inUse_zero
  induction hp with
  | root => exact .inl .root
  | @sub q j hq hj hu ha ih =>
    rcases ih with hq | hq
    · by_cases hP : q = P ∧ j = n
      · obtain ⟨rfl, rfl⟩ := hP
        rw [h.tableAt_new hs] at ha ⊢
        rcases h.kind with hf | ⟨hd, hz⟩
        · exact absurd ha hf.attr
        · rw [← h.tableAt_folder hs] at hd hz
          exact .inr ⟨rfl, hd, hz⟩
      · have heq : tableAt s' q j = tableAt s q j := by
          rw [h.tableAt_live hs hq]
          split_ifs with hqP
          · subst hqP
            exact Function.update_of_ne (fun hi => hP ⟨rfl, hi⟩) _ _
          · rfl
        rw [heq] at hu ha ⊢
        exact .inl (.sub hq hj hu ha)
    · exact absurd hu (hnew hq hj)

theorem held_cases (h : Added s s' P n e cs data) (hs : Inv s) (hp : Held s' p i) :
    Held s p i ∨ (p = P ∧ i = n) := by
  rcases h.live_cases hs hp.live with hl | ⟨-, -, hz⟩
  · by_cases hP : p = P ∧ i = n
    · exact .inr hP
    · have hu := hp.inUse
      rw [h.tableAt_live hs hl] at hu
      split_ifs at hu with hpP
      · subst hpP
        rw [Function.update_of_ne fun hi => hP ⟨rfl, hi⟩] at hu
        exact .inl ⟨hl, hp.slot, hu⟩
      · exact .inl ⟨hl, hp.slot, hu⟩
  · exact absurd (hz i hp.slot ▸ hp.inUse) not_inUse_zero

/-- The old chains do not change. -/
theorem chain_of_chain (h : Added s s' P n e cs data) (hs : Inv s) (hp : Held s p i)
    (hl : Chain s p i l) : Chain s' p i l := by
  have hc : FatChain s'.cluster_map (tableAt s p i).cluster.toNat l := ChainFrom.congr hl fun x hx =>
    next_of_cell_eq (by
      rw [h.map, cell_linkCells_of_notMem]
      exact fun hm => hs.chain_cell_ne_zero hp hl hx (h.fresh x hm).2)
  rwa [Chain, h.tableAt_held hs hp.live hp.inUse]

theorem chain_new (h : Added s s' P n e cs data) (hs : Inv s) : Chain s' P n cs := by
  have hlt : ∀ k ∈ cs, k < 512 := fun k hk => (h.bounds hs hk).2
  obtain ⟨t, ht⟩ := h.head
  rw [Chain, h.tableAt_new hs, h.map, ht]
  rw [ht] at hlt
  exact fatChain_linkCells (ht ▸ h.nodup) hlt

/-- The new chain is disjoint from the old ones. -/
theorem disjoint (h : Added s s' P n e cs data) (hs : Inv s) (hp : Held s p i) (hl : Chain s p i l)
    (hx : x ∈ l) : x ∉ cs :=
  fun hm => hs.chain_cell_ne_zero hp hl hx (h.fresh x hm).2

/-- The chain of an old entry, read backwards. -/
theorem chain_eq (h : Added s s' P n e cs data) (hs : Inv s) (hp : Held s p i) (hl : Chain s' p i l) :
    Chain s p i l := by
  obtain ⟨l₀, hl₀⟩ := hs.sound hp
  obtain rfl := (h.chain_of_chain hs hp hl₀.chain).unique hl
  exact hl₀.chain

theorem sound_of_sound (h : Added s s' P n e cs data) (hs : Inv s) (hp : Held s p i)
    (hl : Sound s p i l) : Sound s' p i l := by
  have heq := h.tableAt_held hs hp.live hp.inUse
  refine ⟨heq ▸ hl.name, h.chain_of_chain hs hp hl.chain, hl.bounds, ?_⟩
  rw [heq]
  refine hl.kind.imp id fun hd => ⟨hd.eq, hd.cells, ?_⟩
  -- the folder's own entry is in use and stays
  have hlive : Live s (tableAt s p i).cluster.toNat := .sub hp.live hp.slot hp.inUse hd.attr
  rw [h.tableAt_held hs hlive (hs.self hlive)]
  exact hd.self

theorem sound_new (h : Added s s' P n e cs data) (hs : Inv s) : Sound s' P n cs := by
  have heq := h.tableAt_new hs
  refine ⟨heq ▸ h.name, h.chain_new hs, fun k hk => h.bounds hs hk, ?_⟩
  rw [heq]
  refine h.kind.imp id fun hd => ?_
  rw [h.tableAt_folder hs]
  exact hd.1

/-- **`write` keeps the invariant.** -/
theorem inv (h : Added s s' P n e cs data) (hs : Inv s) : Inv s' where
  signature := by
    have hP := hs.live_bounds h.parent
    rw [← hs.signature]
    funext i
    rw [read_block_zero, read_block_zero, h.disk, if_neg (by omega), if_neg (by omega),
      if_neg fun hm => by have := h.bounds hs hm; omega]
  fat := by
    have hP := hs.live_bounds h.parent
    rw [h.disk, if_neg (by omega), if_pos rfl]
  root := by
    rw [h.map, cell_linkCells_of_notMem fun hm => by have := h.bounds hs hm; omega]
    exact hs.root
  self {p} hp := by
    rcases h.live_cases hs hp with hl | ⟨-, hd, -⟩
    · rw [h.tableAt_held hs hl (hs.self hl)]
      exact hs.self hl
    · rw [hd.self]
      rfl
  free {p i} hp hu := by
    rcases h.live_cases hs hp with hl | ⟨-, hd, hz⟩
    · rw [h.tableAt_live hs hl] at hu ⊢
      split_ifs at hu ⊢ with hpP
      · subst hpP
        by_cases hi : i = n
        · subst hi
          rw [Function.update_self] at hu
          exact absurd h.inUse hu
        · rw [Function.update_of_ne hi] at hu ⊢
          exact hs.free hl hu
      · exact hs.free hl hu
    · refine hz i ?_
      rintro rfl
      rw [hd.self] at hu
      exact hu rfl
  sound {p i} hp := by
    rcases h.held_cases hs hp with hp | ⟨rfl, rfl⟩
    · exact (hs.sound hp).imp fun l hl => h.sound_of_sound hs hp hl
    · exact ⟨cs, h.sound_new hs⟩
  disjoint {p q i j l l' x} hp hq hl hl' hx hx' := by
    rcases h.held_cases hs hp with hp | ⟨rfl, rfl⟩ <;> rcases h.held_cases hs hq with hq | ⟨rfl, rfl⟩
    · exact hs.disjoint hp hq (h.chain_eq hs hp hl) (h.chain_eq hs hq hl') hx hx'
    · obtain rfl := (h.chain_new hs).unique hl'
      exact absurd hx' (h.disjoint hs hp (h.chain_eq hs hp hl) hx)
    · obtain rfl := (h.chain_new hs).unique hl
      exact absurd hx (h.disjoint hs hq (h.chain_eq hs hq hl') hx')
    · exact ⟨rfl, rfl⟩
  names {p i j} hi hj he := by
    rcases h.held_cases hs hi with hi | ⟨rfl, rfl⟩ <;> rcases h.held_cases hs hj with hj | ⟨hp, rfl⟩
    · rw [h.tableAt_held hs hi.live hi.inUse, h.tableAt_held hs hj.live hj.inUse] at he
      exact hs.names hi hj he
    · subst hp
      rw [h.tableAt_held hs hi.live hi.inUse, h.tableAt_new hs] at he
      exact absurd he (h.fresh_name i hi.slot)
    · rw [h.tableAt_held hs hj.live hj.inUse, h.tableAt_new hs] at he
      exact absurd he.symm (h.fresh_name j hj.slot)
    · rfl

end Added

/-! ## Removing an entry -/

/-- A legal `delete` that returns 0. -/
structure Cleared (s s' : Fs) (P : ℕ) (n : Fin 64) (l : List ℕ) : Prop extends Removed s s' P n l where
  held : Held s P n
  sound : Sound s P n l

namespace Cleared

variable {s s' : Fs} {p q P : ℕ} {i j n : Fin 64} {l l' : List ℕ} {x : ℕ}

/-- The directories that are left keep their tables, but for the slot cleared. -/
theorem tableAt_live (h : Cleared s s' P n l) (hs : Inv s) (hp : Live s p) (hpl : p ∉ l) :
    tableAt s' p = if p = P then Function.update (tableAt s P) n 0 else tableAt s p := by
  have hb := hs.live_bounds hp
  have hd := h.disk p
  rw [if_neg (show p ≠ 1 by omega), if_neg hpl] at hd
  rw [tableAt, hd]
  split_ifs
  · exact Layout.decode_encode _ _
  · rfl

theorem tableAt_ne (h : Cleared s s' P n l) (hs : Inv s) (hp : Live s p) (hpl : p ∉ l)
    (hne : ¬ (p = P ∧ i = n)) : tableAt s' p i = tableAt s p i := by
  rw [h.tableAt_live hs hp hpl]
  split_ifs with hpP
  · subst hpP
    exact Function.update_of_ne (fun hi => hne ⟨rfl, hi⟩) _ _
  · rfl

theorem slot_of_inUse (h : Cleared s s' P n l) (hs : Inv s) (hp : Live s p) (hpl : p ∉ l)
    (hu : (tableAt s' p i).InUse) : ¬ (p = P ∧ i = n) := by
  rintro ⟨rfl, rfl⟩
  rw [h.tableAt_live hs hp hpl, if_pos rfl, Function.update_self] at hu
  exact not_inUse_zero hu

/-- **The directories that are left were there before, and the cleared clusters are none of
them.** -/
theorem live_cases (h : Cleared s s' P n l) (hs : Inv s) (hp : Live s' p) : Live s p ∧ p ∉ l := by
  induction hp with
  | root => exact ⟨.root, fun hm => by have := (h.sound.bounds 2 hm).1; omega⟩
  | @sub q j hq hj hu ha ih =>
    obtain ⟨hq, hql⟩ := ih
    have hne := h.slot_of_inUse hs hq hql hu
    rw [h.tableAt_ne hs hq hql hne] at hu ha ⊢
    refine ⟨.sub hq hj hu ha, fun hm => ?_⟩
    have hq' : Held s q j := ⟨hq, hj, hu⟩
    obtain ⟨l', hl'⟩ := hs.sound hq'
    obtain ⟨rfl, rfl⟩ := hs.disjoint hq' h.held hl'.chain h.sound.chain hl'.chain.head_mem hm
    exact hne ⟨rfl, rfl⟩

theorem held_cases (h : Cleared s s' P n l) (hs : Inv s) (hp : Held s' p i) :
    Held s p i ∧ p ∉ l ∧ ¬ (p = P ∧ i = n) := by
  obtain ⟨hl, hpl⟩ := h.live_cases hs hp.live
  have hne := h.slot_of_inUse hs hl hpl hp.inUse
  refine ⟨⟨hl, hp.slot, ?_⟩, hpl, hne⟩
  rw [← h.tableAt_ne hs hl hpl hne]
  exact hp.inUse

theorem tableAt_held (h : Cleared s s' P n l) (hs : Inv s) (hp : Held s' p i) :
    tableAt s' p i = tableAt s p i := by
  obtain ⟨hp, hpl, hne⟩ := h.held_cases hs hp
  exact h.tableAt_ne hs hp.live hpl hne

/-- The other chains have no cell of the cleared one. -/
theorem disjoint (h : Cleared s s' P n l) (hs : Inv s) (hp : Held s p i) (hne : ¬ (p = P ∧ i = n))
    (hl : Chain s p i l') (hx : x ∈ l') : x ∉ l :=
  fun hm => hne (hs.disjoint hp h.held hl h.sound.chain hx hm)

theorem chain_of_chain (h : Cleared s s' P n l) (hs : Inv s) (hp : Held s' p i)
    (hl : Chain s p i l') : Chain s' p i l' := by
  obtain ⟨hp', -, hne⟩ := h.held_cases hs hp
  rw [Chain, h.tableAt_held hs hp]
  refine ChainFrom.congr hl fun x hx => next_of_cell_eq ?_
  rw [h.map, if_neg (h.disjoint hs hp' hne hl hx)]

theorem chain_eq (h : Cleared s s' P n l) (hs : Inv s) (hp : Held s' p i) (hl : Chain s' p i l') :
    Chain s p i l' := by
  obtain ⟨l₀, hl₀⟩ := hs.sound (h.held_cases hs hp).1
  obtain rfl := (h.chain_of_chain hs hp hl₀.chain).unique hl
  exact hl₀.chain

theorem sound_of_sound (h : Cleared s s' P n l) (hs : Inv s) (hp : Held s' p i)
    (hl : Sound s p i l') : Sound s' p i l' := by
  have heq := h.tableAt_held hs hp
  obtain ⟨hp', -, -⟩ := h.held_cases hs hp
  refine ⟨heq ▸ hl.name, h.chain_of_chain hs hp hl.chain, hl.bounds, ?_⟩
  rw [heq]
  refine hl.kind.imp id fun hd => ⟨hd.eq, hd.cells, ?_⟩
  -- the folder is live in both states, and slot 0 is not the one cleared
  have hlive : Live s' (tableAt s p i).cluster.toNat := by
    rw [← heq]
    exact .sub hp.live hp.slot hp.inUse (heq ▸ hd.attr)
  obtain ⟨hlive', hnot⟩ := h.live_cases hs hlive
  rw [h.tableAt_ne hs hlive' hnot fun hn => h.held.slot hn.2.symm]
  exact hd.self

/-- **`delete` keeps the invariant.** -/
theorem inv (h : Cleared s s' P n l) (hs : Inv s) : Inv s' where
  signature := by
    have hP := hs.live_bounds h.held.live
    rw [← hs.signature]
    funext i
    rw [read_block_zero, read_block_zero, h.disk, if_neg (by omega), if_neg (by omega),
      if_neg fun hm => by have := h.sound.bounds _ hm; omega]
  fat := by
    have hP := hs.live_bounds h.held.live
    rw [h.disk, if_neg (by omega), if_pos rfl]
  root := by
    rw [h.map, if_neg fun hm => by have := h.sound.bounds _ hm; omega]
    exact hs.root
  self {p} hp := by
    obtain ⟨hl, hpl⟩ := h.live_cases hs hp
    rw [h.tableAt_ne hs hl hpl fun hn => h.held.slot hn.2.symm]
    exact hs.self hl
  free {p i} hp hu := by
    obtain ⟨hl, hpl⟩ := h.live_cases hs hp
    by_cases hne : p = P ∧ i = n
    · obtain ⟨rfl, rfl⟩ := hne
      rw [h.tableAt_live hs hl hpl, if_pos rfl, Function.update_self]
    · rw [h.tableAt_ne hs hl hpl hne] at hu ⊢
      exact hs.free hl hu
  sound {p i} hp := (hs.sound (h.held_cases hs hp).1).imp fun l' hl' => h.sound_of_sound hs hp hl'
  disjoint {p q i j l l' x} hp hq hl hl' hx hx' :=
    hs.disjoint (h.held_cases hs hp).1 (h.held_cases hs hq).1 (h.chain_eq hs hp hl)
      (h.chain_eq hs hq hl') hx hx'
  names {p i j} hi hj he := by
    rw [h.tableAt_held hs hi, h.tableAt_held hs hj] at he
    exact hs.names (h.held_cases hs hi).1 (h.held_cases hs hj).1 he

end Cleared

end KeropOS
