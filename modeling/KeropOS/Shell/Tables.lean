import KeropOS.Shell.Emvi
import KeropOS.Fat.Spec

/-!
# What `mv` does to the two tables

* `table_bytes_congr`, `strcmp_returns`: the names in a table, as `strcmp` sees them;
* `DotAt`, `dotAt_iff`: where the name in a path ends;
* `Move`: the arguments of `emvi` and the state it starts from; `Found`, `saved`, `sourceAfter`: what
  the loop over the source table finds, saves and leaves, **`take_sources_spec`**;
* `Goes`, `entry`: where an entry goes, and what it becomes;
* **`emvi_cases`**: `emvi` refuses, clears what it finds, or also fills a slot;
* **`emvi_returns`**: it returns.
-/

namespace KeropOS

open Packed

/-! ## Names in memory -/

theorem table_bytes_getElem? (t : FAT32DirectoryTable) (i : Fin 64) (n : ℕ) : (table_bytes t i)[n]? =
    if h : 32 * i + n < 2048 then some (tableLayout.encode t ⟨32 * i + n, h⟩) else none := by
  rw [table_bytes, List.getElem?_drop, List.getElem?_ofFn]

theorem encode_congr {t t' : FAT32DirectoryTable} {x : Fin (64 * 32)} (h : t x.divNat = t' x.divNat) :
    tableLayout.encode t x = tableLayout.encode t' x :=
  congrArg (fun e => FAT32DirectoryEntry.layout.encode e x.modNat) h

/-- The memory from an entry on holds this entry and the later ones only. -/
theorem table_bytes_congr {t t' : FAT32DirectoryTable} {i : Fin 64} (h : ∀ k, i ≤ k → t k = t' k) :
    table_bytes t i = table_bytes t' i := by
  refine List.ext_getElem? fun n => ?_
  rw [table_bytes_getElem?, table_bytes_getElem?]
  split_ifs with hn
  · refine congrArg some (encode_congr (x := ⟨32 * i + n, hn⟩) (h _ ?_))
    show i.val ≤ (32 * i.val + n) / 32
    omega
  · rfl

theorem table_bytes_byte (t : FAT32DirectoryTable) (i : Fin 64) (k : Fin 32) :
    (table_bytes t i)[k.val]? = some (tableLayout.encode t (finProdFinEquiv (i, k))) := by
  rw [table_bytes_getElem?, dif_pos (by omega)]
  refine congrArg (fun x => some (tableLayout.encode t x)) (Fin.ext ?_)
  rw [finProdFinEquiv_apply_val]
  exact Nat.add_comm ..

theorem table_bytes_undelete (t : FAT32DirectoryTable) (i : Fin 64) :
    (table_bytes t i)[13]? = some (t i).undelete := by
  refine (table_bytes_byte t i 13).trans ?_
  conv_rhs => rw [← tableLayout.decode_encode t]
  rfl

theorem table_bytes_name (t : FAT32DirectoryTable) (i : Fin 64) (k : Fin 8) :
    (table_bytes t i)[k.val]? = some ((t i).name k) := by
  refine (table_bytes_byte t i (k.castLE (by omega))).trans ?_
  conv_rhs => rw [← tableLayout.decode_encode t]
  rfl

theorem char_sub_eq_zero {a b : UInt8} : a.toInt8.toInt - b.toInt8.toInt = 0 ↔ a = b := by
  rw [sub_eq_zero, Int8.toInt_inj]
  exact ⟨fun h => by simpa using congrArg Int8.toUInt8 h, fun h => h ▸ rfl⟩

/-- `strcmp` gives 0 when the first characters agree, and so do those after it up to a zero of the
first string. -/
theorem strcmp_eq_zero_iff {a b : UInt8} {s1 : List UInt8} {s2 : Buffer} :
    strcmp (a :: b :: s1) s2 = some 0 ↔ a = s2 0 ∧ (b = 0 ∨ strcmp (b :: s1) (shift s2 1) = some 0) := by
  rw [strcmp]
  split_ifs with ha hb
  · simp [char_sub_eq_zero, ha]
  · simp [not_not.mp ha, hb]
  · simp [not_not.mp ha, hb]

/-- `strcmp` gives 0 for every string that starts with the first one. -/
theorem strcmp_of_prefix {s1 : List UInt8} {s2 : Buffer} {n : ℕ} (h : ∀ k ≤ n, s1[k]? = some (s2 k))
    (hend : s1[n + 1]? = some 0) : strcmp s1 s2 = some 0 := by
  induction n generalizing s1 s2 with
  | zero =>
    match s1, h 0 le_rfl, hend with
    | a :: b :: s1, h0, hb =>
      exact strcmp_eq_zero_iff.mpr ⟨by simpa using h0, .inl (by simpa using hb)⟩
  | succ n ih =>
    match s1, h 0 (Nat.zero_le _), hend with
    | a :: b :: s1, h0, hend =>
      refine strcmp_eq_zero_iff.mpr ⟨by simpa using h0, .inr (ih (fun k hk => ?_) (by simpa using hend))⟩
      rw [shift, Nat.add_comm 1 k]
      simpa using h (k + 1) (by omega)

/-- `strcmp` ends at a zero after the first character. -/
theorem strcmp_returns {s1 : List UInt8} (s2 : Buffer) {n : ℕ} (h : s1[n + 1]? = some 0) :
    ∃ c, strcmp s1 s2 = some c := by
  induction s1 generalizing s2 n with
  | nil => exact absurd h (by simp)
  | cons a s1 ih =>
    cases s1 with
    | nil => exact absurd h (by simp)
    | cons b s1 =>
      rw [strcmp]
      split_ifs with ha hb
      · exact ⟨_, rfl⟩
      · exact ⟨_, rfl⟩
      · cases n with
        | zero => exact absurd (by simpa using h) hb
        | succ n => exact ih _ (by simpa using h)

/-- `strcmp` ends at a zero of the second string after the first character. -/
theorem strcmp_ends {s1 : List UInt8} {s2 : Buffer} {n : ℕ} (hend : s2 (n + 1) = 0)
    (hlen : n + 1 < s1.length) : ∃ c, strcmp s1 s2 = some c := by
  induction s1 generalizing s2 n with
  | nil => exact absurd hlen (Nat.not_lt_zero _)
  | cons a s1 ih =>
    cases s1 with
    | nil => exact absurd hlen (by simp)
    | cons b s1 =>
      rw [strcmp]
      split_ifs with ha hb
      · exact ⟨_, rfl⟩
      · exact ⟨_, rfl⟩
      · cases n with
        | zero =>
          have hne : b ≠ shift s2 1 0 := fun e => hb (e.trans hend)
          cases s1 with
          | nil => exact ⟨_, if_pos hne⟩
          | cons d s1 => exact ⟨_, if_pos hne⟩
        | succ n =>
          apply ih (n := n)
          · rwa [shift, Nat.add_comm]
          · simpa using hlen

/-- The string at `m` is `text`. -/
def IsString (m : Buffer) (text : List UInt8) : Prop :=
  (∀ k (h : k < text.length), m k = text[k]) ∧ 0 ∉ text ∧ m text.length = 0

/-- The first dot of a string that starts with a name is at index `p`. -/
def DotAt (m : Buffer) (p : ℕ) : Prop := p ≤ 8 ∧ m p = 46 ∧ ∀ j < p, m j ≠ 46

theorem strcmp_dot {m : Buffer} : strcmp dot m = some 0 ↔ m 0 = 46 := by
  rw [dot, strcmp_eq_zero_iff]
  exact ⟨fun h => h.1.symm, fun h => ⟨h.symm, .inl rfl⟩⟩

/-- The loop stops at the first dot, or at index 9. -/
theorem name_length_spec {m : Buffer} {fuel j : ℕ} (hj : j ≤ 9) (hfuel : 9 ≤ j + fuel)
    (hbefore : ∀ k < j, m k ≠ 46) : name_length m fuel j ≤ 9 ∧ (∀ k < name_length m fuel j, m k ≠ 46) ∧
      (name_length m fuel j < 9 → m (name_length m fuel j) = 46) := by
  induction fuel generalizing j with
  | zero => exact ⟨hj, hbefore, fun h => absurd h (by rw [name_length]; omega)⟩
  | succ fuel ih =>
    rw [name_length]
    split_ifs with h
    · refine ih h.2 (by omega) fun k hk => ?_
      rcases Nat.lt_succ_iff_lt_or_eq.mp hk with hk | rfl
      · exact hbefore k hk
      · exact fun hdot => h.1 (strcmp_dot.mpr hdot)
    · refine ⟨hj, hbefore, fun hlt => ?_⟩
      rw [not_and_or, not_not, strcmp_dot] at h
      exact h.resolve_right (by omega)

theorem dotAt_iff {m : Buffer} {p : ℕ} : DotAt m p ↔ p ≤ 8 ∧ name_length m 10 0 = p := by
  obtain ⟨hle, hbefore, hat⟩ := name_length_spec (m := m) (Nat.zero_le 9)
    (show 9 ≤ 0 + 10 by decide) fun _ h => absurd h (Nat.not_lt_zero _)
  constructor
  · rintro ⟨hp, hdot, hfirst⟩
    refine ⟨hp, le_antisymm (not_lt.mp fun h => hbefore p h hdot) (not_lt.mp fun h => ?_)⟩
    exact hfirst _ h (hat (by omega))
  · rintro ⟨hp, rfl⟩
    exact ⟨hp, hat (by omega), hbefore⟩

/-! ## The loop over the source table -/

/-- Entry `k` is one that `filename` finds. -/
def FoundIn (t : FAT32DirectoryTable) (filename : Buffer) (k : Fin 64) : Prop :=
  strcmp (table_bytes t k) filename = some 0

instance (t : FAT32DirectoryTable) (filename : Buffer) (k : Fin 64) : Decidable (FoundIn t filename k) :=
  inferInstanceAs (Decidable (_ = _))

/-- An entry is found by every string that starts with its name. -/
theorem foundIn_of_prefix {t : FAT32DirectoryTable} {filename : Buffer} {i : Fin 64} {n : Fin 8} (hn : n ≠ 0)
    (h : ∀ k < n, (t i).name k = filename k) (hend : (t i).name n = 0) : FoundIn t filename i := by
  have hpos : 0 < n.val := Fin.pos_iff_ne_zero.mpr hn
  refine strcmp_of_prefix (n := n - 1) (fun k hk => ?_) ?_
  · rw [table_bytes_name t i ⟨k, by omega⟩, h ⟨k, by omega⟩ (Fin.mk_lt_of_lt_val (by omega))]
  · rw [Nat.sub_add_cancel hpos, table_bytes_name, hend]

/-- An entry whose name is one character is found by every string that starts with it. -/
theorem foundIn_of_first {t : FAT32DirectoryTable} {filename : Buffer} {i : Fin 64}
    (h0 : (t i).name 0 = filename 0) (h1 : (t i).name 1 = 0) : FoundIn t filename i := by
  refine foundIn_of_prefix (n := 1) (by decide) (fun k hk => ?_) h1
  obtain rfl : k = 0 := by omega
  exact h0

/-- What the local variables hold after the loop: the last entry found. -/
def saveLast (t : FAT32DirectoryTable) (filename : Buffer) (slots : List (Fin 64)) (v : Saved) : Saved :=
  slots.foldl (fun v k => if FoundIn t filename k then (t k).saved else v) v

section Slots

variable {t curr_dir : FAT32DirectoryTable} {filename : Buffer} {i : Fin 64} {slots : List (Fin 64)}

/-- `strcmp` sees the entry that was there at first. -/
theorem table_bytes_of_slots (hup : ∀ j ∈ i :: slots, ∀ k, j < k → k ∈ i :: slots)
    (heq : ∀ k ∈ i :: slots, curr_dir k = t k) : table_bytes curr_dir i = table_bytes t i := by
  apply table_bytes_congr
  intro k hik
  rcases hik.eq_or_lt with rfl | hlt
  · exact heq i (List.mem_cons_self ..)
  · exact heq k (hup i (List.mem_cons_self ..) k hlt)

/-- Clearing an entry found, and then the others. -/
theorem cleared_of_found (hfound : FoundIn t filename i) (hi : curr_dir i = t i) :
    (fun k => if k ∈ slots ∧ FoundIn t filename k then (t k).cleared
      else Function.update curr_dir i (curr_dir i).cleared k) =
    fun k => if k ∈ i :: slots ∧ FoundIn t filename k then (t k).cleared else curr_dir k := by
  funext k
  by_cases hk : k = i
  · subst hk
    simp only [Function.update_self, List.mem_cons_self, hfound, and_self, if_true, hi, ite_self]
  · simp only [Function.update_of_ne hk, List.mem_cons, hk, false_or]

theorem cleared_of_not_found (hnot : ¬ FoundIn t filename i) :
    (fun k => if k ∈ slots ∧ FoundIn t filename k then (t k).cleared else curr_dir k) =
    fun k => if k ∈ i :: slots ∧ FoundIn t filename k then (t k).cleared else curr_dir k := by
  funext k
  by_cases hk : k = i
  · subst hk
    simp only [hnot, and_false]
  · simp only [List.mem_cons, hk, false_or]

end Slots

/-- **The loop** over slots whose entries, and those after them, are still those of `t`. -/
theorem take_sources_spec {t : FAT32DirectoryTable} {filename : Buffer} {cluster : UInt32}
    {slots : List (Fin 64)} {curr_dir : FAT32DirectoryTable} {v v' : Saved} {disk disk' : Disk}
    (h : take_sources filename cluster slots curr_dir v disk = .ok (v', disk'))
    (hsort : slots.Pairwise (· < ·)) (hup : ∀ i ∈ slots, ∀ k, i < k → k ∈ slots)
    (heq : ∀ k ∈ slots, curr_dir k = t k)
    (hdisk : clusterAt disk (clusterIndex cluster) = tableLayout.encode curr_dir) :
    v' = saveLast t filename slots v ∧ ∀ c, clusterAt disk' c =
      if c = clusterIndex cluster then
        tableLayout.encode fun k => if k ∈ slots ∧ FoundIn t filename k then (t k).cleared else curr_dir k
      else clusterAt disk c := by
  induction slots generalizing curr_dir v disk with
  | nil =>
    obtain ⟨rfl, rfl⟩ := Prod.mk.inj (Except.ok.inj h)
    refine ⟨rfl, fun c => ?_⟩
    split_ifs with hc
    · rw [hc, hdisk]
      simp only [List.not_mem_nil, false_and, if_false]
    · rfl
  | cons i slots ih =>
    have hi := (List.pairwise_cons.mp hsort).1
    have hup' : ∀ j ∈ slots, ∀ k, j < k → k ∈ slots := fun j hj k hjk =>
      (List.mem_cons.mp (hup j (List.mem_cons_of_mem _ hj) k hjk)).resolve_left (ne_of_gt ((hi j hj).trans hjk))
    have hne : ∀ k ∈ slots, k ≠ i := fun k hk => ne_of_gt (hi k hk)
    rw [take_sources, table_bytes_of_slots hup heq] at h
    split at h
    · exact absurd h (by simp)
    · rename_i c hc
      split_ifs at h with h0
      · have hfound : FoundIn t filename i := by rw [FoundIn, hc, h0]
        obtain ⟨hv, hclusters⟩ := ih h (List.pairwise_cons.mp hsort).2 hup'
          (fun k hk => by rw [Function.update_of_ne (hne k hk), heq k (List.mem_cons_of_mem _ hk)])
          (by rw [clusterAt_write_clusters, if_pos rfl])
        refine ⟨?_, fun c => ?_⟩
        · rw [hv, saveLast, saveLast, List.foldl_cons, if_pos hfound, heq i (List.mem_cons_self ..)]
        · rw [hclusters, clusterAt_write_clusters, cleared_of_found hfound (heq i (List.mem_cons_self ..))]
          split_ifs <;> rfl
      · have hnot : ¬ FoundIn t filename i := by
          rw [FoundIn, hc]
          exact fun h => h0 (Option.some.inj h)
        obtain ⟨hv, hclusters⟩ := ih h (List.pairwise_cons.mp hsort).2 hup'
          (fun k hk => heq k (List.mem_cons_of_mem _ hk)) hdisk
        refine ⟨?_, fun c => ?_⟩
        · rw [hv, saveLast, saveLast, List.foldl_cons, if_neg hnot]
        · rw [hclusters, cleared_of_not_found hnot]

/-- The loop returns when every entry has a zero byte after its name. -/
theorem take_sources_returns (filename : Buffer) (cluster : UInt32) (slots : List (Fin 64))
    {curr_dir : FAT32DirectoryTable} (hzero : ∀ k, (curr_dir k).undelete = 0) (v : Saved) (disk : Disk) :
    ∃ reply, take_sources filename cluster slots curr_dir v disk = .ok reply := by
  induction slots generalizing curr_dir v disk with
  | nil => exact ⟨_, rfl⟩
  | cons i slots ih =>
    have hend : (table_bytes curr_dir i)[12 + 1]? = some 0 := by rw [table_bytes_undelete, hzero]
    obtain ⟨c, hc⟩ := strcmp_returns filename hend
    rw [take_sources, hc]
    simp only
    split_ifs
    · refine ih (fun k => ?_) _ _
      by_cases hk : k = i
      · subst hk
        rw [Function.update_self]
        exact hzero k
      · rw [Function.update_of_ne hk]
        exact hzero k
    · exact ih hzero _ _

/-! ## The two tables -/

/-- `read_directory` finds the name, and it is that of a directory. -/
def Listed (t : FAT32DirectoryTable) (name : Bytes 8) : Prop :=
  name ≠ 0 ∧ ∃ i, (t i).name = name ∧ (∀ j < i, (t j).name ≠ name) ∧ (t i).attr = ATTR_SUBDIRECTORY ∧
    (t i).filesize = 0

/-- The root is found by its name in a table that has it in front. -/
theorem listed_root_entry {t : FAT32DirectoryTable} (h : t 0 = folderEntry root_name 0 2) :
    Listed t root_name := by
  refine ⟨root_name_ne_zero, 0, ?_, fun j hj => absurd hj (Fin.not_lt_zero j), ?_⟩
  · rw [h]
    rfl
  · rw [h]
    exact ⟨rfl, rfl⟩

theorem read_directory_code (s : Fs) (r : FAT32DriverRequest) :
    (read_directory s r).1 = 0 ↔ Listed (tableAt s (clusterIndex r.parent_cluster_number)) r.name := by
  rw [read_directory, Listed, read_clusters_eq]
  by_cases hname : r.name = 0
  · simp [hname]
  · have hfirst : ∀ {i}, (Fin.find? fun i => sameBytes (tableAt s (clusterIndex r.parent_cluster_number) i).name
        r.name) = some i ↔ (tableAt s (clusterIndex r.parent_cluster_number) i).name = r.name ∧
        ∀ j < i, (tableAt s (clusterIndex r.parent_cluster_number) j).name ≠ r.name := by
      intro i
      rw [Fin.find?_eq_some_iff]
      simp only [sameBytes_iff, ← Bool.not_eq_true, ne_eq]
    rw [if_neg (sameBytes_iff.not.mpr hname)]
    simp only [ne_eq, hname, not_false_eq_true, true_and]
    split
    · rename_i i hi
      obtain ⟨hi, hmin⟩ := hfirst.mp hi
      split_ifs with hdir
      · exact iff_of_true rfl ⟨i, hi, hmin, hdir.1, hdir.2⟩
      · refine iff_of_false (by simp) ?_
        rintro ⟨j, hj, hminj, hattr, hsize⟩
        obtain rfl : j = i := le_antisymm (not_lt.mp fun h => hminj i h hi) (not_lt.mp fun h => hmin j h hj)
        exact hdir ⟨hattr, hsize⟩
    · rename_i hnone
      refine iff_of_false (by simp) ?_
      rintro ⟨i, hi, -⟩
      have hsame := sameBytes_iff.mpr hi
      rw [tableAt, Fin.find?_eq_none_iff.mp hnone i] at hsame
      exact absurd hsame (by simp)

/-- The arguments of `emvi`, its paths already taken apart, and the state it starts from. -/
structure Move where
  fs : Fs
  src : Buffer
  dest : Buffer
  st : DirStack
  parseId : ℕ
  uninitialised : Saved

namespace Move

variable (m : Move)

/-- The clusters of the current directory and of the destination. -/
def cur : ℕ := clusterIndex (m.st.cluster 0)
def dst : ℕ := clusterIndex (m.st.cluster m.parseId)

def source : FAT32DirectoryTable := tableAt m.fs m.cur
def target : FAT32DirectoryTable := tableAt m.fs m.dst

/-- Entry `k` of the source is one that `src` finds. -/
def Found (k : Fin 64) : Prop := FoundIn m.source m.src k

instance (k : Fin 64) : Decidable (m.Found k) := inferInstanceAs (Decidable (FoundIn _ _ _))

/-- The entry on its way: the last one found. -/
def saved : Saved := saveLast m.source m.src (List.finRange 64) m.uninitialised

/-- The source without the entries found. -/
def sourceAfter : FAT32DirectoryTable := fun k => if m.Found k then (m.source k).cleared else m.source k

/-- The destination at that moment; it may be the same directory. -/
def targetAfter : FAT32DirectoryTable := if m.dst = m.cur then m.sourceAfter else m.target

/-- `dest` goes above the root, or the current directory cannot be read. -/
def Refused : Prop :=
  (0 < m.parseId ∧ m.st.dir_stack_index ≤ m.parseId) ∨ ¬ Listed m.source (m.st.name 0)

/-- The entry goes to slot `n`: the destination can be read, `dest` has a dot among its first nine
characters, and the slot is the first free one. -/
def Goes (n : Fin 64) : Prop :=
  Listed m.targetAfter (m.st.name m.parseId) ∧ (∃ p, DotAt m.dest p) ∧ FirstFree m.targetAfter n

/-- What slot `n` of the destination becomes. -/
def entry (n : Fin 64) : FAT32DirectoryEntry :=
  (m.target n).filled m.saved (dest_name m.dest) (dest_ext m.dest)

/-- `emvi` on these arguments. -/
def Runs (text : Option String) (s' : Fs) : Prop :=
  ∃ fuel filename dest, here filename = m.src ∧ destination fuel dest = .ok (m.parseId, m.dest) ∧
    emvi fuel m.uninitialised m.fs filename dest m.st = .ok (text, s')

/-- The state after the loop over the source table. -/
structure Taken (s' : Fs) : Prop where
  source : tableAt s' m.cur = m.sourceAfter
  target : tableAt s' m.dst = m.targetAfter
  other : ∀ c, c ≠ m.cur → clusterAt s'.disk c = clusterAt m.fs.disk c

/-- The state after slot `n` was filled as well. -/
structure Placed (s' : Fs) (n : Fin 64) : Prop where
  target : tableAt s' m.dst = Function.update m.targetAfter n (m.entry n)
  source : m.dst ≠ m.cur → tableAt s' m.cur = m.sourceAfter
  other : ∀ c, c ≠ m.cur → c ≠ m.dst → clusterAt s'.disk c = clusterAt m.fs.disk c

variable {m}

/-- Filling a slot forgets what was cleared in it. -/
theorem filled_targetAfter (n : Fin 64) : (m.targetAfter n).filled m.saved (dest_name m.dest) (dest_ext m.dest) =
    m.entry n := by
  rw [targetAfter, entry, target]
  split_ifs with h
  · rw [sourceAfter, h, source]
    split_ifs <;> rfl
  · rfl

theorem taken_of_loop {v : Saved} {disk : Disk}
    (h : take_sources m.src (m.st.cluster 0) (List.finRange 64)
      (tableLayout.decode (read_clusters m.fs.disk (m.st.cluster 0))) m.uninitialised m.fs.disk =
        .ok (v, disk)) :
    v = m.saved ∧ m.Taken { m.fs with disk := disk } := by
  rw [read_clusters_eq] at h
  obtain ⟨hv, hclusters⟩ := take_sources_spec (t := m.source) h (List.pairwise_lt_finRange 64)
    (fun _ _ k _ => List.mem_finRange k) (fun _ _ => rfl) (tableLayout.encode_decode _).symm
  have hsource : ∀ c, tableAt { m.fs with disk := disk } c =
      if c = m.cur then m.sourceAfter else tableAt m.fs c := by
    intro c
    rw [tableAt, hclusters]
    split_ifs with hc hc' hc'
    · rw [tableLayout.decode_encode]
      funext k
      simp only [List.mem_finRange, true_and]
      rfl
    · exact absurd hc hc'
    · exact absurd hc' hc
    · rfl
  refine ⟨hv, ?_, ?_, fun c hc => ?_⟩
  · rw [hsource, if_pos rfl]
  · rw [hsource]
    rfl
  · rw [hclusters, if_neg (show ¬ c = clusterIndex (m.st.cluster 0) from hc)]

/-- **What the second half does.** -/
theorem put_cases {s : Fs} (hs : m.Taken s) :
    (∃ n, m.Goes n ∧ m.Placed (put_destination m.saved s m.dest m.st m.parseId).2 n) ∨
    ((∀ n, ¬ m.Goes n) ∧ (put_destination m.saved s m.dest m.st m.parseId).2 = s) := by
  have htable : tableLayout.decode (read_clusters s.disk (m.st.cluster m.parseId)) = m.targetAfter := by
    rw [read_clusters_eq]
    exact hs.target
  have hcode : (read_directory s (directory_request m.st m.parseId)).1 = 0 ↔
      Listed m.targetAfter (m.st.name m.parseId) := by
    rw [read_directory_code, ← hs.target]
    rfl
  rw [put_destination]
  simp only [htable]
  by_cases hread : (read_directory s (directory_request m.st m.parseId)).1 ≠ 0
  · rw [if_pos hread]
    exact .inr ⟨fun n hn => hread (hcode.mpr hn.1), rfl⟩
  · rw [if_neg hread]
    rw [not_not, hcode] at hread
    split
    · rename_i hnone
      refine .inr ⟨fun n hn => ?_, rfl⟩
      rw [find?_first_free.mpr hn.2.2] at hnone
      exact absurd hnone (by simp)
    · rename_i n hn
      rw [emvi_dest_key, short_file_key]
      by_cases hlen : name_length m.dest 10 0 > 8
      · rw [if_pos hlen]
        refine .inr ⟨fun n hn => ?_, rfl⟩
        obtain ⟨p, hp⟩ := hn.2.1
        obtain ⟨hp, rfl⟩ := dotAt_iff.mp hp
        omega
      · rw [if_neg hlen]
        have hwrite : ∀ x c, clusterAt (write_clusters s.disk x (m.st.cluster m.parseId)) c =
            if c = m.dst then x else clusterAt s.disk c := fun x c => clusterAt_write_clusters _ _ _ _
        refine .inl ⟨n, ⟨hread, ⟨_, dotAt_iff.mpr ⟨not_lt.mp hlen, rfl⟩⟩, find?_first_free.mp hn⟩, ?_,
          fun hne => ?_, fun c hc hd => ?_⟩
        · rw [tableAt, hwrite, if_pos rfl, tableLayout.decode_encode, file_key, filled_targetAfter]
        · rw [tableAt, hwrite, if_neg (Ne.symm hne)]
          exact hs.source
        · rw [hwrite, if_neg hd]
          exact hs.other c hc

/-- **What `emvi` does.** -/
theorem emvi_cases {text : Option String} {s' : Fs} (h : m.Runs text s') :
    (m.Refused ∧ s' = m.fs) ∨ (¬ m.Refused ∧ (∀ n, ¬ m.Goes n) ∧ m.Taken s') ∨
      (¬ m.Refused ∧ ∃ n, m.Goes n ∧ m.Placed s' n) := by
  obtain ⟨fuel, filename, dest, hsrc, hdest, h⟩ := h
  have hcode : (read_directory m.fs (directory_request m.st 0)).1 = 0 ↔ Listed m.source (m.st.name 0) :=
    read_directory_code _ _
  rw [emvi, hdest, hsrc] at h
  simp only at h
  split_ifs at h with hpath hread
  · obtain ⟨-, rfl⟩ := Prod.mk.inj (Except.ok.inj h)
    exact .inl ⟨.inl hpath, rfl⟩
  · obtain ⟨-, rfl⟩ := Prod.mk.inj (Except.ok.inj h)
    exact .inl ⟨.inr (hcode.not.mp hread), rfl⟩
  · have hnot : ¬ m.Refused := fun hr => hr.elim hpath (hcode.not.mpr · (not_not.mp hread))
    split at h
    · exact absurd h (by simp)
    · rename_i v disk htake
      obtain ⟨hv, htaken⟩ := taken_of_loop (m := m) htake
      rw [hv] at h
      have hput := put_cases htaken
      rw [Except.ok.inj h] at hput
      rcases hput with ⟨n, hn, hplaced⟩ | ⟨hnone, rfl⟩
      · exact .inr (.inr ⟨hnot, n, hn, hplaced⟩)
      · exact .inr (.inl ⟨hnot, hnone, htaken⟩)

end Move

/-! ## Returning -/

theorem prefix_dot_dot_slash {dest : Buffer} (h : strcmp dot_dot_slash dest = some 0) :
    dest 0 = 46 ∧ dest 1 = 46 ∧ dest 2 = 47 := by
  rw [dot_dot_slash, strcmp_eq_zero_iff, strcmp_eq_zero_iff, strcmp_eq_zero_iff] at h
  obtain ⟨h0, h | ⟨h1, h | ⟨h2, -⟩⟩⟩ := h
  · exact absurd h (by decide)
  · exact absurd h (by decide)
  · exact ⟨h0.symm, h1.symm, h2.symm⟩

/-- A string that ends has no end of `"../"`. -/
theorem climb_returns {dest : Buffer} {k fuel : ℕ} (parseId : ℕ) (hstart : strcmp dot_dot_slash dest = some 0)
    (hend : dest k = 0) (hfuel : k < fuel) : ∃ reply, climb fuel parseId dest = .ok reply := by
  induction fuel generalizing dest k parseId with
  | zero => exact absurd hfuel (Nat.not_lt_zero _)
  | succ fuel ih =>
    rw [climb]
    split_ifs with hmore
    · obtain ⟨h0, h1, h2⟩ := prefix_dot_dot_slash hstart
      have hk : 3 ≤ k := by
        by_contra hlt
        have : k = 0 ∨ k = 1 ∨ k = 2 := by omega
        rcases this with rfl | rfl | rfl
        · exact absurd (h0.symm.trans hend) (by decide)
        · exact absurd (h1.symm.trans hend) (by decide)
        · exact absurd (h2.symm.trans hend) (by decide)
      refine ih (k := k - 3) _ hmore ?_ (by omega)
      rw [shift, Nat.add_sub_cancel' hk, hend]
    · exact ⟨_, rfl⟩

theorem destination_returns {dest : Buffer} {k fuel : ℕ} (hend : here dest k = 0) (hfuel : k < fuel) :
    ∃ reply, destination fuel dest = .ok reply := by
  rw [destination]
  split_ifs with hup
  · exact climb_returns 0 hup hend hfuel
  · exact ⟨_, rfl⟩

/-- **`emvi` returns**, when the second argument ends and every entry of the current directory has
`undelete` zero, as the driver leaves it. -/
theorem emvi_returns (v : Saved) (s : Fs) (filename : Buffer) {dest : Buffer} (st : DirStack) {k fuel : ℕ}
    (hend : here dest k = 0) (hfuel : k < fuel)
    (hzero : ∀ i, (tableAt s (clusterIndex (st.cluster 0)) i).undelete = 0) :
    ∃ reply, emvi fuel v s filename dest st = .ok reply := by
  obtain ⟨⟨parseId, name⟩, hdest⟩ := destination_returns hend hfuel
  rw [emvi, hdest]
  simp only
  split_ifs
  · exact ⟨_, rfl⟩
  · exact ⟨_, rfl⟩
  · obtain ⟨⟨v', disk⟩, htake⟩ := take_sources_returns (here filename) (st.cluster 0) (List.finRange 64) hzero
      v s.disk
    rw [tableAt] at htake
    rw [read_clusters_eq, htake]
    exact ⟨_, rfl⟩

end KeropOS
