import KeropOS.Shell.Keys
import KeropOS.Shell.Stack
import KeropOS.Fat.Lookup

/-!
# Files of the current directory

What `cat` and `cp` rest on: the directory on top of the stack, the entries that the loose comparison of names
lets pass, and `read` into an object of a fixed size.

* `ValidStack`: each directory is a subfolder of the one below; **`ValidStack.listed`**: it can be read;
* **`strcmp_zero_iff`**: what `strcmp` compares; `PassesFor`, **`passes_iff`**: the entries that pass;
* **`stores_at_iff`**, `read_into_named`: when `read` gets past the end of an object;
* `FileHere`: a file `n.e` of the current directory.
-/

namespace KeropOS

open Packed Linked Transition

/-! ## Valid stacks -/

/-- A folder in use of the directory at `c` has this name and leads to `c'`. -/
def Enters (s : Fs) (c : UInt32) (name : Bytes 8) (c' : UInt32) : Prop :=
  ∃ i, Child s c.toNat i c'.toNat ∧ (tableAt s c.toNat i).name = name

/-- The stack starts at the root, and each directory is a subfolder of the one below. -/
structure ValidStack (s : Fs) (st : DirStack) : Prop extends Rooted (Enters s) st where
  rootName : ∀ k, k.val = 0 → st.dir_name_stack k = root_name

theorem validStack_shellStack (s : Fs) (uninitialised : Fin 16 → UInt32) :
    ValidStack s (shellStack uninitialised) where
  toRooted := rooted_shellStack _ uninitialised
  rootName _ hk := if_pos hk

section

variable {s : Fs} {st : DirStack} {p c : ℕ} {i : Fin 64}

/-- The table of a folder lists the folder itself, in slot 0. -/
theorem Child.listed (hs : Inv s) (h : Child s p i c) : Listed (tableAt s c) (tableAt s p i).name := by
  have hsound := h.sound hs
  have hself : tableAt s c 0 = folderEntry (tableAt s p i).name 0 (UInt32.ofNat p) := by
    rcases hsound.kind with hf | hd
    · exact absurd h.attr hf.attr
    · rw [← hd.self, h.cluster]
  refine ⟨hsound.name, 0, ?_, fun j hj => absurd hj (Fin.not_lt_zero j), ?_⟩
  · rw [hself]
    rfl
  · rw [hself]
    exact ⟨rfl, rfl⟩

/-- The table of the directory above lists it, unless it comes across its own name before. -/
theorem Child.listed_above (hs : Inv s) (hroot : RootSelf s) (h : Child s p i c) :
    Listed (tableAt s p) (tableAt s p i).name := by
  have hsound := h.sound hs
  refine ⟨hsound.name, ?_⟩
  by_cases h0 : (tableAt s p 0).name = (tableAt s p i).name
  · obtain ⟨q, name, hself, -, -⟩ := hs.upward hroot h.held.live
    refine ⟨0, h0, fun j hj => absurd hj (Fin.not_lt_zero j), ?_⟩
    rw [hself]
    exact ⟨rfl, rfl⟩
  · refine ⟨i, rfl, hs.first_with_name h.held h0, h.attr, ?_⟩
    rcases hsound.kind with hf | hd
    · exact absurd h.attr hf.attr
    · rw [hd.eq]
      rfl

theorem listed_root (hroot : RootSelf s) : Listed (tableAt s 2) root_name := listed_root_entry hroot

namespace ValidStack

/-- Every directory on the stack is live. -/
theorem live (h : ValidStack s st) : ∀ k, k.val < st.dir_stack_index → Live s (st.dir_stack k).toNat := by
  refine h.trail.induct (fun c => Live s c.toNat) (fun k hk => ?_) fun c name c' hedge _ => ?_
  · rw [h.root k hk]
    exact .root
  · obtain ⟨i, hi, -⟩ := hedge
    exact hi.live

theorem slot_lt (st : DirStack) (k : ℕ) : (st.slot k).val < st.dir_stack_index := by
  have := st.pos
  unfold DirStack.slot
  simp only
  omega

theorem cluster_live (h : ValidStack s st) (k : ℕ) : Live s (st.cluster k).toNat := h.live _ (slot_lt st k)

theorem clusterIndex (h : ValidStack s st) (hs : Inv s) (k : ℕ) :
    clusterIndex (st.cluster k) = (st.cluster k).toNat :=
  clusterIndex_of_lt (hs.live_bounds (h.cluster_live k)).2

/-- **Every directory on the stack lists itself** under the name kept for it. -/
theorem listed (h : ValidStack s st) (hs : Inv s) (hroot : RootSelf s) (k : ℕ) :
    Listed (tableAt s (st.cluster k).toNat) (st.name k) := by
  have hlt := slot_lt st k
  rcases Nat.eq_zero_or_pos (st.slot k).val with h0 | hpos
  · rw [DirStack.cluster, h.root _ h0, DirStack.name, h.rootName _ h0]
    exact listed_root hroot
  · obtain ⟨i, hi, hname⟩ := h.trail ⟨(st.slot k).val - 1, by omega⟩ (st.slot k) (Nat.sub_add_cancel hpos) hlt
    rw [DirStack.name, ← hname]
    exact hi.listed hs

/-- The commands can read every directory on the stack. -/
theorem read_directory_code (h : ValidStack s st) (hs : Inv s) (hroot : RootSelf s) (k : ℕ) :
    (read_directory s (directory_request st k)).1 = 0 := by
  rw [KeropOS.read_directory_code]
  show Listed (tableAt s (KeropOS.clusterIndex (st.cluster k))) (st.name k)
  rw [h.clusterIndex hs]
  exact h.listed hs hroot k

end ValidStack

end

/-! ## Paths -/

/-- `"../"`, `k` times. -/
def ups (k : ℕ) : List UInt8 := (List.replicate k [46, 46, 47]).flatten

section

variable {t n e : List UInt8} {y rest : Buffer} {k p fuel : ℕ}

theorem length_ups : (ups k).length = 3 * k := by
  rw [ups, List.length_flatten, List.map_replicate, List.sum_replicate, smul_eq_mul, Nat.mul_comm]
  rfl

theorem ups_succ : ups (k + 1) ++ t = [46, 46, 47] ++ (ups k ++ t) := by
  rw [ups, List.replicate_succ, List.flatten_cons, List.append_assoc]
  rfl

/-- What is behind the front of an argument is an argument. -/
theorem shift_typed (a : List UInt8) : shift (typed (a ++ t) y) a.length = typed t y := by
  funext j
  rw [shift, typed, typed, List.append_assoc, List.getD_append_right _ _ _ _ (Nat.le_add_right _ _),
    Nat.add_sub_cancel_left]
  congr 2
  rw [List.length_append]
  omega

theorem starts_ups : strcmp dot_dot_slash (typed (ups (k + 1) ++ t) y) = some 0 := by
  rw [ups_succ, dot_dot_slash, strcmp_eq_zero_iff, strcmp_eq_zero_iff, strcmp_eq_zero_iff]
  exact ⟨rfl, .inr ⟨rfl, .inr ⟨rfl, .inl rfl⟩⟩⟩

/-- `"../"` can be taken from a path as often as it was put there. -/
theorem climbs_ups (h : strcmp dot_dot_slash (typed t y) ≠ some 0) : Climbs (typed (ups k ++ t) y) k := by
  induction k with
  | zero =>
    refine ⟨fun j hj => absurd hj (Nat.not_lt_zero j), ?_⟩
    rwa [Nat.mul_zero, shift_zero]
  | succ k ih =>
    apply Climbs.succ starts_ups
    rw [ups_succ]
    exact (shift_typed [46, 46, 47]).symm ▸ ih

theorem here_ups (h : strcmp dot_slash (typed t y) ≠ some 0) :
    here (typed (ups k ++ t) y) = typed (ups k ++ t) y := by
  cases k with
  | zero => rw [here, show ups 0 ++ t = t from rfl, if_neg h]
  | succ k =>
    rw [here, if_neg]
    rw [ups_succ, dot_slash, strcmp_eq_zero_iff, strcmp_eq_zero_iff]
    rintro ⟨-, h0 | ⟨h1, -⟩⟩
    · exact absurd h0 (by decide)
    · exact absurd (show (47 : UInt8) = 46 from h1) (by decide)

/-- The path of a token in a directory above. -/
theorem Token.destination_ups (h : Token n e)
    (hd : KeropOS.destination fuel (typed (ups k ++ tokenText n e) y) = .ok (p, rest)) :
    p = k ∧ rest = typed (tokenText n e) y := by
  have hhere : here (typed (ups k ++ tokenText n e) y) = typed (ups k ++ tokenText n e) y := here_ups h.first
  rw [KeropOS.destination, hhere] at hd
  split_ifs at hd with hup
  · obtain ⟨k', hclimbs, rfl, rfl⟩ := climb_spec hup hd
    obtain rfl := hclimbs.unique (climbs_ups h.first)
    rw [← length_ups, shift_typed]
    exact ⟨Nat.zero_add _, rfl⟩
  · cases k with
    | zero =>
      obtain ⟨rfl, rfl⟩ := Prod.mk.inj (Except.ok.inj hd)
      exact ⟨rfl, rfl⟩
    | succ k => exact absurd starts_ups hup

theorem Token.destination_ups_returns (h : Token n e) (hfuel : (ups k ++ tokenText n e).length < fuel) :
    KeropOS.destination fuel (typed (ups k ++ tokenText n e) y) = .ok (k, typed (tokenText n e) y) := by
  have hend : here (typed (ups k ++ tokenText n e) y) (ups k ++ tokenText n e).length = 0 := by
    rw [here_ups h.first]
    exact typed_end
  obtain ⟨⟨p, rest⟩, hd⟩ := destination_returns hend hfuel
  obtain ⟨rfl, rfl⟩ := h.destination_ups hd
  exact hd

end

/-! ## The loose comparison of names -/

/-- `strcmp` gives 0 when the strings agree from the first character up to the one before a zero of the first
string. -/
theorem strcmp_zero_iff {s1 : List UInt8} {s2 : Buffer} :
    strcmp s1 s2 = some 0 ↔ ∃ n, (∀ k ≤ n, s1[k]? = some (s2 k)) ∧ s1[n + 1]? = some 0 := by
  refine ⟨fun h => ?_, fun ⟨n, hpre, hend⟩ => strcmp_of_prefix hpre hend⟩
  induction s1 generalizing s2 with
  | nil => exact absurd h (by simp [strcmp])
  | cons a s1 ih =>
    cases s1 with
    | nil =>
      rw [strcmp] at h
      split_ifs at h with ha
      exact absurd (char_sub_eq_zero.mp (Option.some.inj h)) ha
    | cons b s1 =>
      obtain ⟨ha, rfl | hrest⟩ := strcmp_eq_zero_iff.mp h
      · refine ⟨0, fun k hk => ?_, rfl⟩
        obtain rfl := Nat.le_zero.mp hk
        rw [ha]
        rfl
      · obtain ⟨n, hpre, hend⟩ := ih hrest
        refine ⟨n + 1, fun k hk => ?_, by simpa using hend⟩
        cases k with
        | zero =>
          rw [ha]
          rfl
        | succ k =>
          rw [List.getElem?_cons_succ, hpre k (by omega), shift, Nat.add_comm]

section

variable {t : FAT32DirectoryTable} {name : Bytes 8} {k : Fin 64}

theorem table_bytes_ext (t : FAT32DirectoryTable) (i : Fin 64) (k : Fin 3) :
    (table_bytes t i)[8 + k.val]? = some ((t i).ext k) := by
  refine (table_bytes_byte t i (Fin.natAdd 8 (k.castLE (show 3 ≤ 24 by decide)))).trans ?_
  conv_rhs => rw [← tableLayout.decode_encode t]
  rfl

/-- The name of entry `k`, up to a zero behind its first character, is at the front of `name`. -/
def Heads (t : FAT32DirectoryTable) (name : Bytes 8) (k : Fin 64) : Prop :=
  ∃ m : Fin 8, m ≠ 0 ∧ (t k).name m = 0 ∧ ∀ j < m, (t k).name j = name j

instance (t : FAT32DirectoryTable) (name : Bytes 8) (k : Fin 64) : Decidable (Heads t name k) :=
  inferInstanceAs (Decidable (∃ _, _))

theorem request_name_of_lt (name : Bytes 8) (j : Fin 8) : request_name name j = name j := by
  rw [request_name, dif_pos j.isLt]

/-- **The entries found**: behind a name without a zero, `strcmp` goes on in the extension. -/
theorem foundIn_request_name_iff :
    FoundIn t (request_name name) k ↔ Heads t name k ∨ ((t k).name = name ∧ (t k).ext 0 = 0) := by
  rw [FoundIn, strcmp_zero_iff]
  constructor
  · rintro ⟨n, hpre, hend⟩
    have hname : ∀ j : Fin 8, j.val ≤ n → (t k).name j = name j := fun j hj => by
      have := hpre j hj
      rw [table_bytes_name, request_name_of_lt] at this
      exact Option.some.inj this
    rcases lt_trichotomy (n + 1) 8 with hn | hn | hn
    · refine .inl ⟨⟨n + 1, hn⟩, fun h0 => absurd (congrArg Fin.val h0) (Nat.succ_ne_zero n), ?_,
        fun j hj => ?_⟩
      · exact Option.some.inj ((table_bytes_name t k ⟨n + 1, hn⟩).symm.trans hend)
      · exact hname j (Nat.lt_succ_iff.mp hj)
    · refine .inr ⟨funext fun j => hname j (by omega), ?_⟩
      rw [hn] at hend
      exact Option.some.inj ((table_bytes_ext t k 0).symm.trans hend)
    · refine .inr ⟨funext fun j => hname j (by omega), ?_⟩
      exact Option.some.inj ((table_bytes_ext t k 0).symm.trans (hpre 8 (by omega)))
  · rintro (⟨m, hm, hzero, hpre⟩ | ⟨hname, hext⟩)
    · have hpos : 0 < m.val := Fin.pos_iff_ne_zero.mpr hm
      refine ⟨m.val - 1, fun j hj => ?_, ?_⟩
      · rw [table_bytes_name t k ⟨j, by omega⟩, hpre ⟨j, by omega⟩ (Fin.lt_def.mpr (by simp only; omega))]
        exact congrArg some (request_name_of_lt name ⟨j, by omega⟩).symm
      · rw [Nat.sub_add_cancel hpos, table_bytes_name, hzero]
    · refine ⟨7, fun j hj => ?_, ?_⟩
      · rw [table_bytes_name t k ⟨j, by omega⟩, hname]
        exact congrArg some (request_name_of_lt name ⟨j, by omega⟩).symm
      · exact (table_bytes_ext t k 0).trans (congrArg some hext)

/-! ### Text files -/

/-- `"txt"`, without the zero. -/
def text : List UInt8 := [116, 120, 116]

/-- Entry `k` passes for the text file `name`: it is a text file whose name, of at most seven characters, is
at the front of `name`. -/
def PassesFor (t : FAT32DirectoryTable) (name : Bytes 8) (k : Fin 64) : Prop :=
  (t k).ext = padded text ∧ Heads t name k

instance (t : FAT32DirectoryTable) (name : Bytes 8) (k : Fin 64) : Decidable (PassesFor t name k) :=
  inferInstanceAs (Decidable (_ ∧ _))

theorem ext_bytes_eq (t : FAT32DirectoryTable) (i : Fin 64) (k : Fin 3) : ext_bytes t i k = (t i).ext k := by
  rw [ext_bytes, List.getD_eq_getElem?_getD, table_bytes_ext]
  rfl

theorem strcmp_txt {m : Buffer} : strcmp txt m = some 0 ↔ m 0 = 116 ∧ m 1 = 120 ∧ m 2 = 116 := by
  rw [txt, strcmp_eq_zero_iff, strcmp_eq_zero_iff, strcmp_eq_zero_iff]
  simp only [shift, eq_comm (a := (116 : UInt8)), eq_comm (a := (120 : UInt8))]
  simp

theorem strcmp_ext : strcmp txt (ext_bytes t k) = some 0 ↔ (t k).ext = padded text := by
  have h0 := ext_bytes_eq t k 0
  have h1 := ext_bytes_eq t k 1
  have h2 := ext_bytes_eq t k 2
  rw [strcmp_txt]
  constructor
  · rintro ⟨e0, e1, e2⟩
    funext j
    match j with
    | 0 => exact h0.symm.trans e0
    | 1 => exact h1.symm.trans e1
    | 2 => exact h2.symm.trans e2
  · intro he
    rw [he] at h0 h1 h2
    exact ⟨h0, h1, h2⟩

/-- **The entries that pass.** A name of eight characters runs into its extension, which is not zero. -/
theorem passes_iff :
    FoundIn t (request_name name) k ∧ strcmp txt (ext_bytes t k) = some 0 ↔ PassesFor t name k := by
  rw [strcmp_ext, foundIn_request_name_iff, PassesFor, and_comm]
  refine and_congr_right fun hext => or_iff_left ?_
  rintro ⟨-, h0⟩
  rw [hext] at h0
  exact absurd h0 (by decide)

/-- **The loop of `ket`** takes the first entry that passes. -/
theorem find_text_eq (t : FAT32DirectoryTable) (name : Bytes 8) :
    find_text t (request_name name) (List.finRange 64) =
      .ok (Fin.find? fun k => decide (PassesFor t name k)) := by
  rw [Fin.find?_eq_find?_finRange]
  induction List.finRange 64 with
  | nil => rfl
  | cons k slots ih =>
    obtain ⟨c, hc⟩ := strcmp_request_name t k name
    have hpass : (c = 0 ∧ strcmp txt (ext_bytes t k) = some 0) ↔ PassesFor t name k := by
      rw [← passes_iff, FoundIn, hc, Option.some_inj]
    rw [find_text, hc, List.find?_cons]
    simp only [hpass]
    by_cases h : PassesFor t name k
    · simp only [h, if_true, decide_true]
    · simp only [h, if_false, decide_false, ih]

end

/-! ## `read` into an object -/

section

variable {s : Fs} {r : FAT32DriverRequest} {i : Fin 64} {l : List ℕ}

/-- With the size of the file, all its clusters are copied. -/
theorem IsFile.copied {e : FAT32DirectoryEntry} (h : IsFile e l.length) (hsize : r.buffer_size = e.filesize) :
    copied r l = l.length := by
  have hmax := h.size.2
  rw [KeropOS.copied, hsize, Nat.mod_eq_of_lt (by omega), h.cells]
  exact Nat.min_self _

/-- `read` of an entry stores what it copies. -/
theorem stores_at_iff (hs : WellFormed s) (hname : r.name ≠ 0) (hsize : r.buffer_size ≠ 0) (hi : Names s r i)
    (hl : OwnChain s r.parent_cluster_number.toNat i l) (a : ℕ) :
    stores_at s r a = true ↔ a < copied r l * 2048 := by
  have hread : ∀ b : UInt8, read s { r with buf := Function.update r.buf a b } =
      .ok (if r.buffer_size.toNat / 2048 ≤ l.length then 0 else 3,
        copyChain s.disk l (copied r l) 0 (Function.update r.buf a b)) := fun b =>
    read_named (r := { r with buf := Function.update r.buf a b }) hs hname hsize ⟨hi.held, hi.name, hi.ext⟩ hl
  rw [stores_at, hread, hread]
  simp only [copyChain, Nat.zero_le, true_and, Nat.sub_zero, Function.update_self]
  split_ifs with hlt
  · simp [hlt]
  · simp [hlt]

/-- `read` of an entry into an object it fits. -/
theorem read_into_named (hs : WellFormed s) (hname : r.name ≠ 0) (hsize : r.buffer_size ≠ 0)
    (hi : Names s r i) (hl : OwnChain s r.parent_cluster_number.toNat i l) (size : ℕ) :
    read_into size s r = if size < copied r l * 2048 then .error .outOfBounds else read s r := by
  rw [read_into]
  simp only [stores_at_iff hs hname hsize hi hl]

end

/-! ## Files -/

/-- Entry `i` of the current directory is the file `n.e`, with chain `l`. -/
structure FileHere (s : Fs) (st : DirStack) (n e : List UInt8) (i : Fin 64) (l : List ℕ) : Prop where
  token : Token n e
  held : Held s (st.cluster 0).toNat i
  name : (tableAt s (st.cluster 0).toNat i).name = padded n
  ext : (tableAt s (st.cluster 0).toNat i).ext = padded e
  file : (tableAt s (st.cluster 0).toNat i).attr ≠ ATTR_SUBDIRECTORY
  chain : Chain s (st.cluster 0).toNat i l

/-- The bytes of a file. -/
def fileBytes (s : Fs) (p : ℕ) (i : Fin 64) (l : List ℕ) : List UInt8 :=
  firstBytes (tableAt s p i).filesize.toNat (content s.disk l)

theorem length_fileBytes {s : Fs} {p : ℕ} {i : Fin 64} {l : List ℕ} :
    (fileBytes s p i l).length = (tableAt s p i).filesize.toNat := by
  rw [fileBytes, firstBytes, List.length_map, List.length_range]

namespace FileHere

variable {s : Fs} {st : DirStack} {n e : List UInt8} {i : Fin 64} {l : List ℕ}

theorem sound (h : FileHere s st n e i l) (hs : Inv s) : Sound s (st.cluster 0).toNat i l := by
  obtain ⟨l', hl'⟩ := hs.sound h.held
  rwa [h.chain.unique hl'.chain]

theorem isFile (h : FileHere s st n e i l) (hs : Inv s) :
    IsFile (tableAt s (st.cluster 0).toNat i) l.length :=
  (h.sound hs).kind.resolve_right fun hd => h.file hd.attr

end FileHere

/-- The name of a token is not empty. -/
theorem Token.padded_ne_zero {n e : List UInt8} (h : Token n e) : (padded n : Bytes 8) ≠ 0 := by
  intro h0
  have hpos := List.length_pos_iff.mpr h.name_pos
  have hfirst : n.getD 0 0 = 0 := congrFun h0 0
  rw [List.getD_eq_getElem _ _ hpos] at hfirst
  exact h.no_zero (List.mem_append_left _ (hfirst ▸ List.getElem_mem hpos))

/-- `firstFile` with another name and size. -/
def textFile (n : List UInt8) (size : UInt32) : FAT32DriverRequest :=
  { firstFile with
    name := padded n
    buffer_size := size }

theorem textFile_entry {n : List UInt8} {size : UInt32} {e : FAT32DirectoryEntry} {cs : List ℕ}
    {data : ℕ → Cluster}
    (hok : SizeOk size) (h : Asked (textFile n size) e cs data) :
    e = fileEntry (padded n) (padded text) size e.cluster := by
  have hext : firstFile.ext = padded text := by decide
  exact hext ▸ (h.file hok.ne_zero).2

/-- The first text file of the root. -/
theorem boot_textFile {n : List UInt8} {size : UInt32} (h : Token n text) (hok : SizeOk size) : ∃ reply s c l,
    StepOn (boot 0) (0, .write (textFile n size), reply) s ∧ FileHere s (shellStack 0) n text 1 l ∧
      tableAt s 2 = Function.update (tableAt (boot 0) 2) 1 (fileEntry (padded n) (padded text) size c) ∧
      (emptyCells s.cluster_map).length + clustersFor size.toNat = 509 := by
  obtain ⟨reply, s, hstep, -, e, cs, data, ha, hask⟩ :=
    boot_added 0 (r := textFile n size) rfl h.padded_ne_zero
    (.inr hok)
  have hs := inv_boot 0
  have he := textFile_entry hok hask
  have hnew := (ha.tableAt_new hs).trans he
  have hfile : FileHere s (shellStack 0) n text 1 cs := by
    refine ⟨h, ha.held_new hs, ?_, ?_, ?_, ha.chain_new hs⟩
    · exact congrArg FAT32DirectoryEntry.name hnew
    · exact congrArg FAT32DirectoryEntry.ext hnew
    · show (tableAt s 2 1).attr ≠ ATTR_SUBDIRECTORY
      rw [hnew]
      exact attr_fileEntry _ _ _ _
  refine ⟨reply, s, e.cluster, cs, hstep.on, hfile, ?_, ?_⟩
  · rw [← he]
    exact (ha.tableAt_live hs .root).trans (if_pos rfl)
  · have hlen : cs.length = clustersFor (tableAt s 2 1).filesize.toNat := (hfile.isFile (ha.inv hs)).cells
    have hcells := ha.length_emptyCells hs
    rw [hlen, hnew, emptyCells_boot, List.length_range'] at hcells
    exact hcells

theorem token_a : Token [97] text := ⟨by decide, by decide, by decide, by decide, by decide⟩

theorem token_b : Token [98] text := ⟨by decide, by decide, by decide, by decide, by decide⟩

section

variable {s : Fs} {c size : UInt32} {l : List ℕ}

/-- The second file of the root, `b.txt`. -/
theorem second_text (hs : Inv s) (hfile : FileHere s (shellStack 0) [97] text 1 l) (htable : tableAt s 2 =
    Function.update (tableAt (boot 0) 2) 1 (fileEntry (padded [97]) (padded text) size c))
    (hcells : 1 ≤ (emptyCells s.cluster_map).length) :
    ∃ reply s' k c', Step s (.write (textFile [98] 1), reply) s' ∧ k ≠ 0 ∧ k ≠ 1 ∧ Held s' 2 k ∧
      FileHere s' (shellStack 0) [97] text 1 l ∧
      tableAt s' 2 = Function.update (tableAt s 2) k (fileEntry (padded [98]) (padded text) 1 c') ∧
      (emptyCells s'.cluster_map).length + 1 = (emptyCells s.cluster_map).length := by
  have hzero : ∀ j : Fin 64, j ≠ 0 → j ≠ 1 → tableAt s 2 j = 0 := fun j h0 h1 => by
    rw [htable, Function.update_of_ne h1, boot_slot 0 h0]
  have hone : tableAt s 2 1 = fileEntry (padded [97]) (padded text) size c := by
    rw [htable, Function.update_self]
  have hlegal : Legal s (.write (textFile [98] 1)) :=
    ⟨.root, ⟨2, by
      show ¬ (tableAt s 2 2).InUse
      rw [hzero 2 (by decide) (by decide)]
      exact not_inUse_zero⟩, .inr sizeOk_one⟩
  have hfresh : FreshName (tableAt s 2) (padded [98]) := fun j hj hn => by
    by_cases h1 : j = 1
    · rw [h1, hone] at hn
      exact absurd (show (97 : UInt8) = 98 from congrFun hn 0) (by decide)
    · rw [hzero j hj h1] at hn
      exact absurd (show (0 : UInt8) = 98 from congrFun hn 0) (by decide)
  obtain ⟨reply, s', hstep, -, k, e, cs, data, -, ha, hask⟩ :=
    write_succeeds hs hlegal token_b.padded_ne_zero hfresh hcells
  have he := textFile_entry sizeOk_one hask
  have hheld : Held s 2 1 := hfile.held
  have hkeep : tableAt s' 2 1 = tableAt s 2 1 := ha.tableAt_held hs .root hheld.inUse
  have hnew : Held s' 2 k := ha.held_new hs
  refine ⟨reply, s', k, e.cluster, hstep, hnew.slot, fun h1 => ?_, hnew, ?_, ?_, ?_⟩
  · exact ha.vacant (h1 ▸ hheld.inUse)
  · obtain ⟨htoken, -, hname, hext, hattr, hchain⟩ := hfile
    refine ⟨htoken, ha.held_of_held hs hheld, ?_, ?_, ?_, ha.chain_of_chain hs hheld hchain⟩
    · exact (congrArg FAT32DirectoryEntry.name hkeep).trans hname
    · exact (congrArg FAT32DirectoryEntry.ext hkeep).trans hext
    · exact fun h => hattr ((congrArg FAT32DirectoryEntry.attr hkeep).symm.trans h)
  · rw [← he]
    exact (ha.tableAt_live hs .root).trans (if_pos rfl)
  · have hlen : cs.length = 1 := by
      rcases ha.kind with hf | ⟨hd, -⟩
      · rw [hf.cells, he]
        exact (by decide : clustersFor (1 : UInt32).toNat = 1)
      · exact absurd hd.attr (by rw [he]; exact attr_fileEntry _ _ _ _)
    have := ha.length_emptyCells hs
    rwa [hlen] at this

end

theorem clean_single (call : Call) (reply : Reply) :
    ∀ e ∈ [((0 : FAT32DirectoryTable), call, reply)], CleanStack e := by
  simpa using cleanStack_zero call reply

end KeropOS
