import KeropOS.Fat.FileMap

/-!
# What `read` returns and where it stores

* `WellFormed`: the entries of the live directories head chains of their own lengths, **`Inv.wellFormed`**;
* `Names`: the entry a request names;
* **`read_named`**: `read` of an entry copies whole clusters, and its code compares two numbers of clusters;
* **`read_codes_iff`**: when the code is the documented one;
* **`read_stays_inside_iff`**: when nothing is stored past the end of the buffer;
* **`read_delivers_prefix`**: the buffer starts with the bytes of the chain.
-/

namespace KeropOS

open Packed Linked Transition

/-- Every entry of a live directory heads a chain of its own length, a slot that is not in use has no
name, and a key names one entry. -/
structure WellFormed (s : Fs) : Prop where
  chains : ∀ {p i}, Held s p i → ∃ l, OwnChain s p i l
  free : ∀ {p i}, Live s p → ¬ (tableAt s p i).InUse → (tableAt s p i).name = 0
  keys : ∀ {p i j}, Held s p i → Held s p j → (tableAt s p i).name = (tableAt s p j).name →
    (tableAt s p i).ext = (tableAt s p j).ext → i = j

/-- **The states of every run are well formed.** -/
theorem Inv.wellFormed {s : Fs} (hs : Inv s) : WellFormed s where
  chains hp := (hs.sound hp).imp fun _ hl => hl.ownChain
  free hp hu := by
    rw [hs.free hp hu]
    rfl
  keys hi hj hn _ := hs.names hi hj hn

/-- Entry `i` of the parent. -/
abbrev named (s : Fs) (r : FAT32DriverRequest) (i : Fin 64) : FAT32DirectoryEntry :=
  tableAt s r.parent_cluster_number.toNat i

/-- Entry `i` of the parent is in use and has the name and the extension of the request. -/
structure Names (s : Fs) (r : FAT32DriverRequest) (i : Fin 64) : Prop where
  held : Held s r.parent_cluster_number.toNat i
  name : (named s r i).name = r.name
  ext : (named s r i).ext = r.ext

variable {s : Fs} {r : FAT32DriverRequest} {p : ℕ} {i j : Fin 64} {l : List ℕ}

theorem WellFormed.live_lt (hs : WellFormed s) (h : Live s p) : p < 512 := by
  cases h with
  | root => omega
  | sub hp hi hu _ =>
    obtain ⟨l, hl⟩ := hs.chains ⟨hp, hi, hu⟩
    exact (hl.bounds _ hl.chain.head_mem).2

theorem WellFormed.names_unique (hs : WellFormed s) (hi : Names s r i) (hj : Names s r j) : i = j :=
  hs.keys hi.held hj.held (hi.name.trans hj.name.symm) (hi.ext.trans hj.ext.symm)

/-- The slots `read` takes for the one asked for are the entry named. -/
theorem WellFormed.names_of_matches (hs : WellFormed s) (hlive : Live s r.parent_cluster_number.toNat)
    (hname : r.name ≠ 0) (hi : i ≠ 0)
    (h : keyMatches r (tableAt s (clusterIndex r.parent_cluster_number) i) = true) : Names s r i := by
  rw [clusterIndex_of_lt (hs.live_lt hlive), keyMatches_iff] at h
  refine ⟨⟨hlive, hi, by_contra fun hu => hname ?_⟩, h.1, h.2⟩
  rw [← h.1, hs.free hlive hu]

/-! ## The scan -/

/-- A scan that one slot matches. -/
theorem read_scan_one {t : FAT32DirectoryTable} {buf buf' : Buffer} {total : ℕ} {slots : List (Fin 64)}
    (hnd : slots.Nodup) (hi : i ∈ slots) (hmatch : keyMatches r (t i) = true)
    (hone : ∀ j ∈ slots, keyMatches r (t j) = true → j = i)
    (hread : read_chain s ((r.buffer_size.toNat + 2047) % 2 ^ 32 / 2048) r.buffer_size.toNat
      (t i).cluster 0 buf = .ok (total, buf')) (htotal : total ≤ r.buffer_size.toNat) :
    read_scan s r t slots buf =
      .ok (if total / 2048 = r.buffer_size.toNat / 2048 then 0 else 3, buf') := by
  induction slots with
  | nil => exact absurd hi (by simp)
  | cons k slots ih =>
    obtain ⟨hk, hnd⟩ := List.nodup_cons.mp hnd
    rw [read_scan]
    by_cases hki : k = i
    · subst hki
      have hmiss : read_scan s r t slots buf' = .ok (3, buf') := by
        refine read_scan_miss s r t buf' fun j hj => Bool.eq_false_iff.mpr fun hm => hk ?_
        rw [← hone j (List.mem_cons_of_mem _ hj) hm]
        exact hj
      have hle : ¬ total / 2048 > r.buffer_size.toNat / 2048 := not_lt.mpr (Nat.div_le_div_right htotal)
      rw [if_pos hmatch]
      simp only [hread, if_neg hle, hmiss]
      split_ifs <;> rfl
    · rw [if_neg fun hm => hki (hone k (by simp) hm)]
      exact ih hnd ((List.mem_cons.mp hi).resolve_left (Ne.symm hki)) fun j hj =>
        hone j (List.mem_cons_of_mem _ hj)

/-- The clusters `read` copies. -/
def copied (r : FAT32DriverRequest) (l : List ℕ) : ℕ :=
  min ((r.buffer_size.toNat + 2047) % 2 ^ 32 / 2048) l.length

/-- The test after the reading loop compares two numbers of clusters. -/
theorem read_test {size : UInt32} {n : ℕ} (hn : n ≤ 512) :
    (0 + min size.toNat (min ((size.toNat + 2047) % 2 ^ 32 / 2048) n * 2048)) / 2048 = size.toNat / 2048 ↔
      size.toNat / 2048 ≤ n := by
  have := size.toNat_lt
  omega

/-- **`read` of an entry** copies clusters from the front of its chain, and returns 0 when the chain has
all the full clusters of the buffer. -/
theorem read_named (hs : WellFormed s) (hname : r.name ≠ 0) (hsize : r.buffer_size ≠ 0) (hi : Names s r i)
    (hl : OwnChain s r.parent_cluster_number.toNat i l) :
    read s r = .ok (if r.buffer_size.toNat / 2048 ≤ l.length then 0 else 3,
      copyChain s.disk l (copied r l) 0 r.buf) := by
  have hidx := clusterIndex_of_lt (hs.live_lt hi.held.live)
  have hmatch : keyMatches r (tableAt s (clusterIndex r.parent_cluster_number) i) = true := by
    rw [hidx]
    exact keyMatches_iff.mpr ⟨hi.name, hi.ext⟩
  have hchain := read_chain_spec s hl.chain (fun k hk => (hl.bounds k hk).2)
    (clusters_to_read_lt r.buffer_size) rfl 0 r.buf
  have hlen : l.length ≤ 512 := hl.chain.length_le fun k hk => (hl.bounds k hk).2
  rw [read, if_neg (by simpa using hname), if_neg hsize, read_clusters_eq]
  rw [← hidx] at hchain
  refine (read_scan_one (List.nodup_finRange 64).tail (mem_slots.mpr hi.held.slot) hmatch (fun j hj hm => ?_)
    hchain (by omega)).trans ?_
  · exact hs.names_unique (hs.names_of_matches hi.held.live hname (mem_slots.mp hj) hm) hi
  · simp only [read_test hlen, copied]

/-- `read` of a key that no entry has. -/
theorem read_unnamed (hs : WellFormed s) (hlive : Live s r.parent_cluster_number.toNat) (hname : r.name ≠ 0)
    (hsize : r.buffer_size ≠ 0) (h : ¬ ∃ i, Names s r i) : read s r = .ok (3, r.buf) :=
  read_miss hname hsize fun i hi hm =>
    h ⟨i, hs.names_of_matches hlive hname hi (keyMatches_iff.mpr hm)⟩

/-! ## Return codes -/

/-- `read` returns this code. -/
def Returns (s : Fs) (r : FAT32DriverRequest) (code : ℤ) : Prop := ∃ buf, read s r = .ok (code, buf)

theorem returns_iff {code code' : ℤ} {buf : Buffer} (h : read s r = .ok (code, buf)) :
    Returns s r code' ↔ code' = code := by
  constructor
  · rintro ⟨buf', h'⟩
    exact (Prod.mk.inj (Except.ok.inj (h'.symm.trans h))).1
  · rintro rfl
    exact ⟨buf, h⟩

/-- 0 success, 1 not a file, 2 not enough buffer, 3 not found. -/
structure HonoursCodes (s : Fs) (r : FAT32DriverRequest) : Prop where
  not_found : Returns s r 3 ↔ ¬ ∃ i, Names s r i
  folder : Returns s r 1 ↔ ∃ i, Names s r i ∧ (named s r i).attr = ATTR_SUBDIRECTORY
  short : Returns s r 2 ↔ ∃ i, Names s r i ∧ (named s r i).attr ≠ ATTR_SUBDIRECTORY ∧
    r.buffer_size.toNat < (named s r i).filesize.toNat
  success : Returns s r 0 ↔ ∃ i, Names s r i ∧ (named s r i).attr ≠ ATTR_SUBDIRECTORY ∧
    (named s r i).filesize.toNat ≤ r.buffer_size.toNat

/-- The entry is a file, the buffer is not smaller than it, and not larger than its chain by a full
cluster or more. -/
def BufferFits (e : FAT32DirectoryEntry) (size : ℕ) : Prop :=
  e.attr ≠ ATTR_SUBDIRECTORY ∧ e.filesize.toNat ≤ size ∧ size / 2048 ≤ clustersFor e.filesize.toNat

theorem OwnChain.length_file (hl : OwnChain s p i l) (hattr : (tableAt s p i).attr ≠ ATTR_SUBDIRECTORY) :
    l.length = clustersFor (tableAt s p i).filesize.toNat := by
  rw [hl.length, if_neg hattr]

theorem honoursCodes_of_unnamed {buf : Buffer} (h : read s r = .ok (3, buf)) (hex : ¬ ∃ i, Names s r i) :
    HonoursCodes s r where
  not_found := (returns_iff h).trans (iff_of_true rfl hex)
  folder := (returns_iff h).trans (iff_of_false (by decide) fun ⟨j, hj, _⟩ => hex ⟨j, hj⟩)
  short := (returns_iff h).trans (iff_of_false (by decide) fun ⟨j, hj, _⟩ => hex ⟨j, hj⟩)
  success := (returns_iff h).trans (iff_of_false (by decide) fun ⟨j, hj, _⟩ => hex ⟨j, hj⟩)

theorem honoursCodes_of_file {buf : Buffer} (hs : WellFormed s) (h : read s r = .ok (0, buf)) (hi : Names s r i)
    (hattr : (named s r i).attr ≠ ATTR_SUBDIRECTORY)
    (hle : (named s r i).filesize.toNat ≤ r.buffer_size.toNat) : HonoursCodes s r where
  not_found := (returns_iff h).trans (iff_of_false (by decide) (not_not.mpr ⟨i, hi⟩))
  folder := by
    refine (returns_iff h).trans (iff_of_false (by decide) ?_)
    rintro ⟨j, hj, hdir⟩
    exact hattr (hs.names_unique hi hj ▸ hdir)
  short := by
    refine (returns_iff h).trans (iff_of_false (by decide) ?_)
    rintro ⟨j, hj, -, hlt⟩
    obtain rfl := hs.names_unique hi hj
    omega
  success := (returns_iff h).trans (iff_of_true rfl ⟨i, hi, hattr, hle⟩)

/-- **When `read` returns the documented code**: no entry has the key, or it names a file that the
buffer fits. -/
theorem read_codes_iff (s : Fs) (hs : WellFormed s) (r : FAT32DriverRequest)
    (hlive : Live s r.parent_cluster_number.toNat) (hname : r.name ≠ 0) (hsize : r.buffer_size ≠ 0) :
    HonoursCodes s r ↔ ∀ i, Names s r i → BufferFits (named s r i) r.buffer_size.toNat := by
  constructor
  · intro h i hi
    obtain ⟨l, hl⟩ := hs.chains hi.held
    have hread := read_named hs hname hsize hi hl
    have hattr : (named s r i).attr ≠ ATTR_SUBDIRECTORY := fun hattr => by
      have := (returns_iff hread).mp (h.folder.mpr ⟨i, hi, hattr⟩)
      split_ifs at this <;> exact absurd this (by decide)
    have hle : (named s r i).filesize.toNat ≤ r.buffer_size.toNat := by
      by_contra hlt
      have := (returns_iff hread).mp (h.short.mpr ⟨i, hi, hattr, not_le.mp hlt⟩)
      split_ifs at this <;> exact absurd this (by decide)
    refine ⟨hattr, hle, by_contra fun hlong => ?_⟩
    have := (returns_iff hread).mp (h.success.mpr ⟨i, hi, hattr, hle⟩)
    rw [hl.length_file hattr, if_neg hlong] at this
    exact absurd this (by decide)
  · intro h
    by_cases hex : ∃ i, Names s r i
    · obtain ⟨i, hi⟩ := hex
      obtain ⟨hattr, hle, hfit⟩ := h i hi
      obtain ⟨l, hl⟩ := hs.chains hi.held
      have hread := read_named hs hname hsize hi hl
      rw [hl.length_file hattr, if_pos hfit] at hread
      exact honoursCodes_of_file hs hread hi hattr hle
    · exact honoursCodes_of_unnamed (read_unnamed hs hlive hname hsize hex) hex

/-! ## The end of the buffer -/

/-- `read` stores nothing at or after `buf + buffer_size`. -/
def StaysInside (s : Fs) (r : FAT32DriverRequest) : Prop :=
  ∀ code buf, read s r = .ok (code, buf) → ∀ a, r.buffer_size.toNat ≤ a → buf a = r.buf a

/-- The clusters copied end before the end of the buffer, or they are those the buffer needs. -/
theorem copied_cases (r : FAT32DriverRequest) {l : List ℕ} (hlen : l.length ≤ 512) :
    (r.buffer_size.toNat % 2048 = 0 ∨ l.length < clustersFor r.buffer_size.toNat →
      copied r l * 2048 ≤ r.buffer_size.toNat) ∧
    (¬ (r.buffer_size.toNat % 2048 = 0 ∨ l.length < clustersFor r.buffer_size.toNat) →
      copied r l = clustersFor r.buffer_size.toNat) := by
  have := r.buffer_size.toNat_lt
  unfold copied clustersFor
  constructor
  · intro h
    omega
  · intro h
    omega

/-- `read` stays inside the buffer when every byte it stores behind it is there already. -/
theorem stays_inside_iff {n : ℕ} {code : ℤ} (h : read s r = .ok (code, copyChain s.disk l n 0 r.buf)) :
    StaysInside s r ↔ ∀ a, r.buffer_size.toNat ≤ a → a < n * 2048 → content s.disk l a = r.buf a := by
  constructor
  · intro hin a ha hlt
    have := hin _ _ h a ha
    rwa [copyChain, if_pos ⟨Nat.zero_le a, hlt⟩] at this
  · intro hsame code' buf h' a ha
    obtain ⟨-, rfl⟩ := Prod.mk.inj (Except.ok.inj (h'.symm.trans h))
    rw [copyChain]
    split_ifs with hlt
    · exact hsame a ha hlt.2
    · rfl

/-- **When `read` of a file stays inside the buffer**: the size is a whole number of clusters, or more
clusters than the file has, or the memory after the buffer already holds what is stored there. -/
theorem read_stays_inside_iff (s : Fs) (hs : WellFormed s) (r : FAT32DriverRequest) (i : Fin 64) (l : List ℕ)
    (hi : Names s r i) (hattr : (named s r i).attr ≠ ATTR_SUBDIRECTORY)
    (hl : OwnChain s r.parent_cluster_number.toNat i l) (hsize : r.buffer_size ≠ 0) :
    StaysInside s r ↔ r.name = 0 ∨ r.buffer_size.toNat % 2048 = 0 ∨
      clustersFor (named s r i).filesize.toNat < clustersFor r.buffer_size.toNat ∨
      ∀ a, r.buffer_size.toNat ≤ a → a < clustersFor r.buffer_size.toNat * 2048 →
        content s.disk l a = r.buf a := by
  by_cases hname : r.name = 0
  · refine iff_of_true (fun code buf h a _ => ?_) (.inl hname)
    rw [read, if_pos (by simpa using hname)] at h
    rw [← (Prod.mk.inj (Except.ok.inj h)).2]
  have hlen : l.length ≤ 512 := hl.chain.length_le fun k hk => (hl.bounds k hk).2
  obtain ⟨hshort, hlong⟩ := copied_cases r hlen
  rw [stays_inside_iff (read_named hs hname hsize hi hl), ← hl.length_file hattr]
  by_cases hcond : r.buffer_size.toNat % 2048 = 0 ∨ l.length < clustersFor r.buffer_size.toNat
  · have hle := hshort hcond
    refine iff_of_true (fun a ha hlt => by omega) (.inr ?_)
    rw [← or_assoc]
    exact .inl hcond
  · rw [hlong hcond, ← or_assoc (a := _ % 2048 = 0), or_iff_right hname, or_iff_right hcond]

/-! ## The bytes delivered -/

/-- The request names the file in slot `i`, and `l` is the chain of that file. -/
structure NamesFile (s : Fs) (r : FAT32DriverRequest) (i : Fin 64) (l : List ℕ) : Prop extends
    Names s r i where
  hasName : r.name ≠ 0
  file : (named s r i).attr ≠ ATTR_SUBDIRECTORY
  chain : Chain s r.parent_cluster_number.toNat i l

theorem NamesFile.ownChain (h : NamesFile s r i l) (hs : WellFormed s) :
    OwnChain s r.parent_cluster_number.toNat i l := by
  obtain ⟨l', hl'⟩ := hs.chains h.held
  rwa [h.chain.unique hl'.chain]

/-- The clusters copied hold every byte that both the buffer and the chain have room for. -/
theorem lt_copied (r : FAT32DriverRequest) (l : List ℕ) {a : ℕ} (hsize : r.buffer_size.toNat ≤ 0xC0000000)
    (ha : a < min r.buffer_size.toNat (l.length * 2048)) : a < copied r l * 2048 := by
  unfold copied
  rw [Nat.mod_eq_of_lt (by omega)]
  omega

/-- **`read` delivers the prefix of the file** that the buffer has room for, with every code. -/
theorem read_delivers_prefix (s : Fs) (hs : WellFormed s) (r : FAT32DriverRequest) (i : Fin 64) (l : List ℕ)
    (hf : NamesFile s r i l) (hpos : 1 ≤ r.buffer_size.toNat) (hsize : r.buffer_size.toNat ≤ 0xC0000000) :
    ∃ code buf, read s r = .ok (code, buf) ∧
      ∀ a, a < min r.buffer_size.toNat (l.length * 2048) → buf a = content s.disk l a := by
  have h0 := size_ne_zero hpos
  refine ⟨_, _, read_named hs hf.hasName h0 hf.toNames (hf.ownChain hs), fun a ha => ?_⟩
  rw [copyChain, if_pos ⟨Nat.zero_le a, lt_copied r l hsize ha⟩, Nat.sub_zero]

/-! ## The first file -/

/-- `firstFile`, and a buffer of another size. -/
def firstRead (size : UInt32) : FAT32DriverRequest := { firstFile with buffer_size := size }

/-- The first file of the root. -/
theorem boot_names (d : Disk) (size : UInt32) : ∃ reply s, Step (boot d) (.write firstFile, reply) s ∧ Inv s ∧
    Names s (firstRead size) 1 ∧ (named s (firstRead size) 1).attr ≠ ATTR_SUBDIRECTORY ∧
    (named s (firstRead size) 1).filesize = 5 ∧ ∃ l, OwnChain s 2 1 l ∧ content s.disk l 5 = 0 := by
  obtain ⟨reply, s, hstep, -, e, cs, data, h, hask⟩ := boot_firstFile_added d
  have hs := inv_boot d
  have hinv := h.inv hs
  have hroot := h.tableAt_new hs
  rcases hask with ⟨h0, -⟩ | ⟨-, he, hdata⟩
  · exact absurd h0 (by decide)
  · have hnamed : named s (firstRead size) 1 = e := hroot
    have hsnd := h.sound_new hs
    have hlen : 5 < cs.length * 2048 := by
      have : cs.length ≠ 0 := fun h0 => absurd (hsnd.chain.length_pos) (by omega)
      omega
    have hzero := h.content_written hs hdata hlen
    rw [if_neg (show ¬ 5 < firstFile.buffer_size.toNat by decide)] at hzero
    exact ⟨reply, s, hstep, hinv, ⟨h.held_new hs, by rw [hnamed, he]; rfl, by rw [hnamed, he]; rfl⟩,
      by rw [hnamed, he]; exact attr_fileEntry _ _ _ _, by rw [hnamed, he]; rfl, cs, hsnd.ownChain, hzero⟩

/-- `read` of the first file with its own size. -/
theorem read_codes_whole : ∃ reply s, Step (boot 0) (.write firstFile, reply) s ∧
    HonoursCodes s (firstRead 5) := by
  obtain ⟨reply, s, hstep, hinv, hi, hattr, hfs, -⟩ := boot_names 0 5
  refine ⟨reply, s, hstep, (read_codes_iff s hinv.wellFormed (firstRead 5) hi.held.live
    (fun h => absurd (congrFun h 0) (by decide)) (by decide)).mpr fun j hj => ?_⟩
  obtain rfl := hinv.wellFormed.names_unique hi hj
  rw [BufferFits, hfs]
  exact ⟨hattr, by decide, by decide⟩

/-- `read` of the first file, of five bytes, into one byte: it returns 0. -/
theorem read_short_buffer : ∃ reply s, Step (boot 0) (.write firstFile, reply) s ∧ WellFormed s ∧
    Live s (firstRead 1).parent_cluster_number.toNat ∧ (∃ i, Names s (firstRead 1) i ∧
      (named s (firstRead 1) i).filesize = 5) ∧ Returns s (firstRead 1) 0 ∧ ¬ HonoursCodes s (firstRead 1) := by
  obtain ⟨reply, s, hstep, hinv, hi, hattr, hfs, l, hl, -⟩ := boot_names 0 1
  have hread := read_named hinv.wellFormed (fun h => absurd (congrFun h 0) (by decide)) (by decide) hi hl
  rw [if_pos (by rw [show (firstRead 1).buffer_size.toNat / 2048 = 0 by decide]; exact Nat.zero_le _)] at hread
  refine ⟨reply, s, hstep, hinv.wellFormed, hi.held.live, ⟨1, hi, hfs⟩, ⟨_, hread⟩, fun h => ?_⟩
  have := (returns_iff hread).mp (h.short.mpr ⟨1, hi, hattr, by rw [hfs]; decide⟩)
  exact absurd this (by decide)

/-- `read` of the first file into a whole cluster. -/
theorem read_stays_inside_cluster : ∃ reply s, Step (boot 0) (.write firstFile, reply) s ∧
    StaysInside s (firstRead 2048) := by
  obtain ⟨reply, s, hstep, hinv, hi, hattr, -, l, hl, -⟩ := boot_names 0 2048
  exact ⟨reply, s, hstep, (read_stays_inside_iff s hinv.wellFormed (firstRead 2048) 1 l hi hattr hl
    (by decide)).mpr (.inr (.inl (by decide)))⟩

/-- `read` of the first file with its own size stores behind its five bytes. -/
theorem read_overruns_buffer : ∃ reply s, Step (boot 0) (.write firstFile, reply) s ∧ WellFormed s ∧
    Names s firstFile 1 ∧ ¬ StaysInside s firstFile := by
  obtain ⟨reply, s, hstep, hinv, hi, -, -, l, hl, hzero⟩ := boot_names 0 5
  have hread := read_named hinv.wellFormed (fun h => absurd (congrFun h 0) (by decide)) (by decide) hi hl
  refine ⟨reply, s, hstep, hinv.wellFormed, hi, fun hin => ?_⟩
  have hpos : copied (firstRead 5) l = 1 := by
    have := hl.chain.length_pos
    unfold copied
    rw [show ((firstRead 5).buffer_size.toNat + 2047) % 2 ^ 32 / 2048 = 1 by decide]
    omega
  have hbyte := (stays_inside_iff (r := firstRead 5) hread).mp hin 5 (by decide) (by omega)
  rw [hzero] at hbyte
  exact absurd hbyte (by decide)

/-- `read` of the first file, of one cluster, with a buffer of 5000 bytes. -/
theorem read_delivers_prefix_long : ∃ reply s l code buf, Step (boot 0) (.write firstFile, reply) s ∧
    read s (firstRead 5000) = .ok (code, buf) ∧
    ∀ a, a < min (firstRead 5000).buffer_size.toNat (l.length * 2048) → buf a = content s.disk l a := by
  obtain ⟨reply, s, hstep, hinv, hi, hattr, -, l, hl, -⟩ := boot_names 0 5000
  obtain ⟨code, buf, h⟩ := read_delivers_prefix s hinv.wellFormed (firstRead 5000) 1 l
    ⟨hi, fun h => absurd (congrFun h 0) (by decide), hattr, hl.chain⟩ (by decide) (by decide)
  exact ⟨reply, s, l, code, buf, hstep, h⟩

end KeropOS
