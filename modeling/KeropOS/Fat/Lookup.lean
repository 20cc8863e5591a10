import KeropOS.Fat.NewFolder
import KeropOS.Fat.Reading

/-!
# Looking up a name

`read_directory` scans a table from slot 0, where the directory has its own name; `read`, `write` and
`delete` scan from slot 1. `write` compares names, `read` and `delete` also extensions.

* `RootSelf`: entry 0 of the root; **`Inv.upward`**: entry 0 of a live directory leads to its parent;
* **`Inv.tables_differ`**: the table of a folder is not that of the parent of its parent;
* `Delivers`; **`read_directory_own_iff`**: when `read_directory` delivers a folder's own table;
* `Finds`, `KeysAgree`; **`write_key_iff`**: when `write` takes the entries for there that the lookups find.
-/

namespace KeropOS

open Packed Linked Transition

variable {s s' : Fs} {r : FAT32DriverRequest} {p q : ℕ} {i j : Fin 64}

/-! ## Entry 0 -/

/-- Entry 0 of the root is its own. -/
def RootSelf (s : Fs) : Prop := tableAt s 2 0 = folderEntry root_name 0 2

theorem rootSelf_boot (d : Disk) : RootSelf (boot d) := by
  unfold RootSelf
  rw [boot_root, Function.update_self]

/-- **A step with a clean stack keeps entry 0 of the root.** -/
theorem rootSelf_stepOn (s : Fs) (event : FAT32DirectoryTable × Call × Reply) (s' : Fs) (hs : Inv s)
    (hroot : RootSelf s) (h : StepOn s event s') (hclean : CleanStack event) : RootSelf s' := by
  unfold RootSelf at hroot ⊢
  rcases stepOn_cases hs h hclean with hu | ⟨P, n, e, cs, data, ha⟩ | ⟨P, i, l, hcl⟩
  · rw [hu.tableAt, hroot]
  · rw [ha.tableAt_held hs .root (hs.self .root), hroot]
  · have h2 : 2 ∉ l := fun hm => by
      have := (hcl.sound.bounds 2 hm).1
      omega
    rw [hcl.tableAt_ne hs .root h2 fun h0 => hcl.held.slot h0.2.symm, hroot]

/-- Both hold in every state of every run with a clean stack. -/
theorem rootSelf_of_runOn {d : Disk} {es : List (FAT32DirectoryTable × Call × Reply)}
    (h : Run StepOn (boot d) es s) (hclean : ∀ e ∈ es, CleanStack e) : Inv s ∧ RootSelf s := by
  refine h.invariant_mem (fun s => Inv s ∧ RootSelf s) (fun s t e he hs hstep => ?_)
    ⟨inv_boot d, rootSelf_boot d⟩
  exact ⟨inv_stepOn s e t hs.1 hstep (hclean e he), rootSelf_stepOn s e t hs.1 hs.2 hstep (hclean e he)⟩

/-- A folder entry of a live directory. -/
structure Child (s : Fs) (p : ℕ) (i : Fin 64) (c : ℕ) : Prop where
  held : Held s p i
  attr : (tableAt s p i).attr = ATTR_SUBDIRECTORY
  cluster : (tableAt s p i).cluster.toNat = c

namespace Child

variable {c : ℕ}

theorem live (h : Child s p i c) : Live s c := by
  obtain ⟨h, hattr, rfl⟩ := h
  exact .sub h.live h.slot h.inUse hattr

theorem sound (h : Child s p i c) (hs : Inv s) : Sound s p i [c] := by
  have hd := hs.isFolder h.held h.attr
  rwa [h.cluster] at hd

theorem three_le (h : Child s p i c) (hs : Inv s) : 3 ≤ c :=
  ((h.sound hs).bounds c (by simp)).1

/-- A folder has one entry. -/
theorem unique (h : Child s p i c) (h' : Child s q j c) (hs : Inv s) : p = q ∧ i = j :=
  hs.disjoint h.held h'.held (h.sound hs).chain (h'.sound hs).chain (List.mem_singleton_self c)
    (List.mem_singleton_self c)

/-- The same entry in another live directory. -/
theorem of_table_eq (h : Child s p i c) (hq : Live s q) (ht : tableAt s p = tableAt s q) : Child s q i c := by
  obtain ⟨h, hattr, hc⟩ := h
  have hu := h.inUse
  rw [ht] at hattr hc hu
  exact ⟨⟨hq, h.slot, hu⟩, hattr, hc⟩

end Child

/-- Entry 0 of a live directory leads to its parent; the root is its own. -/
theorem Inv.upward (hs : Inv s) (hroot : RootSelf s) (hp : Live s p) : ∃ q name,
    tableAt s p 0 = folderEntry name 0 (UInt32.ofNat q) ∧ Live s q ∧
      ((p = 2 ∧ q = 2) ∨ ∃ j, Child s q j p) := by
  rcases hs.live_cases hp with rfl | ⟨q, j, hq, hattr, hc, hsnd⟩
  · exact ⟨2, root_name, hroot, .root, .inl ⟨rfl, rfl⟩⟩
  · rcases hsnd.kind with hf | hd
    · exact absurd hattr hf.attr
    · have hself := hd.self
      rw [hc] at hself
      exact ⟨q, _, hself, hq.live, .inr ⟨j, hq, hattr, hc⟩⟩

/-- **No folder lies in one of its own folders.** The induction goes up from `p`: its parent is `q` again. -/
theorem Inv.no_two_cycle (hs : Inv s) (hp : Live s p) :
    ∀ {q : ℕ} {i j : Fin 64}, Child s p i q → ¬ Child s q j p := by
  induction hp with
  | root =>
    intro q i j _ h
    have := h.three_le hs
    omega
  | @sub p₀ i₀ hp₀ hi₀ hu₀ hattr₀ ih =>
    intro q i j h h'
    have hentry : Child s p₀ i₀ (tableAt s p₀ i₀).cluster.toNat := ⟨⟨hp₀, hi₀, hu₀⟩, hattr₀, rfl⟩
    obtain ⟨rfl, rfl⟩ := hentry.unique h' hs
    exact ih h' h

/-- **The table of a folder is not that of the parent of its parent.** The one has the entry that leads
down to the other. -/
theorem Inv.tables_differ {c : ℕ} (hs : Inv s) (hi : Child s p i c)
    (hq : (p = 2 ∧ q = 2) ∨ ∃ j, Child s q j p) : tableAt s q ≠ tableAt s c := by
  intro ht
  rcases hq with ⟨rfl, rfl⟩ | ⟨j, hj⟩
  · have h2 := (hi.unique (hi.of_table_eq hi.live ht) hs).1
    have := hi.three_le hs
    omega
  · obtain ⟨rfl, -⟩ := hj.unique (hj.of_table_eq hi.live ht) hs
    exact hs.no_two_cycle hi.held.live hi hj

/-! ## `read_directory` -/

/-- `read_directory` returns 0 and stores cluster `c` in the buffer. -/
def Delivers (s : Fs) (r : FAT32DriverRequest) (c : ℕ) : Prop :=
  (read_directory s r).1 = 0 ∧ ∀ a (h : a < 2048), (read_directory s r).2 a = clusterAt s.disk c ⟨a, h⟩

/-- `read_directory` of the first slot with the name, a folder. -/
theorem read_directory_folder {c : UInt32} (hname : r.name ≠ 0)
    (hi : parentTable s r i = folderEntry r.name 0 c) (hfirst : ∀ j < i, (parentTable s r j).name ≠ r.name) :
    read_directory s r = (0, copyTo r.buf 0 (clusterAt s.disk (clusterIndex c))) := by
  have hfind : (Fin.find? fun i => sameBytes (parentTable s r i).name r.name) = some i := by
    rw [Fin.find?_eq_some_iff]
    refine ⟨sameBytes_iff.mpr (by rw [hi]; rfl), fun j hj => ?_⟩
    rw [← Bool.not_eq_true, sameBytes_iff]
    exact hfirst j hj
  have hdir : (parentTable s r i).attr = ATTR_SUBDIRECTORY ∧ (parentTable s r i).filesize = 0 := by
    rw [hi]
    exact ⟨rfl, rfl⟩
  have hc : (parentTable s r i).cluster = c := by
    rw [hi, cluster_folderEntry]
  rw [read_directory, if_neg (sameBytes_iff.not.mpr hname), read_clusters_eq]
  unfold parentTable tableAt at hfind hdir hc
  simp only [hfind, if_pos hdir, hc, read_clusters_eq]

theorem copyTo_zero (buf : Buffer) (src : Cluster) {a : ℕ} (h : a < 2048) :
    copyTo buf 0 src a = src ⟨a, h⟩ := by
  unfold copyTo
  rw [dif_pos ⟨Nat.zero_le a, h⟩]
  rfl

/-- The slots before an entry do not have its name, but for slot 0. -/
theorem Inv.first_with_name (hs : Inv s) (hi : Held s p i)
    (h0 : (tableAt s p 0).name ≠ (tableAt s p i).name) : ∀ j < i,
      (tableAt s p j).name ≠ (tableAt s p i).name := by
  intro j hj hn
  have hj0 : j ≠ 0 := by
    rintro rfl
    exact h0 hn
  obtain ⟨l, hl⟩ := hs.sound hi
  have hu : (tableAt s p j).InUse := by
    by_contra hu
    rw [hs.free hi.live hu] at hn
    exact hl.name hn.symm
  exact absurd (hs.names ⟨hi.live, hj0, hu⟩ hi hn) hj.ne

theorem Child.index {c : ℕ} (hi : Child s r.parent_cluster_number.toNat i c) (hs : Inv s) :
    clusterIndex r.parent_cluster_number = r.parent_cluster_number.toNat :=
  clusterIndex_of_lt (hs.live_bounds hi.held.live).2

section

variable {c : ℕ} (hs : Inv s) (hi : Child s r.parent_cluster_number.toNat i c)
  (hname : (named s r i).name = r.name)

include hs hi hname

theorem Child.name_ne_zero : r.name ≠ 0 := by
  rw [← hname]
  exact (hi.sound hs).name

/-- `read_directory` of a folder whose name is not that of its directory. -/
theorem read_directory_child (h0 : (parentTable s r 0).name ≠ r.name) : Delivers s r c := by
  have hidx := hi.index hs
  have hentry : parentTable s r i = folderEntry r.name 0 (named s r i).cluster := by
    rcases (hi.sound hs).kind with hf | hd
    · exact absurd hi.attr hf.attr
    · rw [parentTable, hidx, ← hname]
      exact hd.eq
  have hc : clusterIndex (named s r i).cluster = c := by
    rw [clusterIndex_of_lt (hi.cluster ▸ (hs.live_bounds hi.live).2), hi.cluster]
  have hread := read_directory_folder (Child.name_ne_zero hs hi hname) hentry fun j hj => by
    rw [parentTable, hidx] at h0 ⊢
    rw [← hname] at h0 ⊢
    exact hs.first_with_name hi.held h0 j hj
  unfold Delivers
  rw [hread, hc]
  exact ⟨rfl, fun a ha => copyTo_zero _ _ ha⟩

/-- `read_directory` of a folder with the name of its directory delivers the parent of that. -/
theorem read_directory_self (hroot : RootSelf s) (h0 : (parentTable s r 0).name = r.name) :
    ¬ Delivers s r c := by
  rintro ⟨-, hbytes⟩
  have hidx := hi.index hs
  obtain ⟨q, name, hself, hq, hup⟩ := hs.upward hroot hi.held.live
  have hentry : parentTable s r 0 = folderEntry r.name 0 (UInt32.ofNat q) := by
    rw [← h0, parentTable, hidx, hself]
    rfl
  have hread := read_directory_folder (Child.name_ne_zero hs hi hname) hentry fun j hj => absurd hj (by simp)
  rw [hread, clusterIndex_ofNat (hs.live_bounds hq).2] at hbytes
  refine hs.tables_differ hi hup (congrArg tableLayout.decode ?_)
  funext a
  exact (copyTo_zero _ _ a.isLt).symm.trans (hbytes a a.isLt)

end

/-- **When `read_directory` delivers a folder's own table**: the folder does not have the name of the
directory it is in. -/
theorem read_directory_own_iff (d : Disk) (es : List (FAT32DirectoryTable × Call × Reply)) (s : Fs)
    (h : Run StepOn (boot d) es s) (hclean : ∀ e ∈ es, CleanStack e) (r : FAT32DriverRequest) (i : Fin 64)
    (c : ℕ) (hi : Child s r.parent_cluster_number.toNat i c) (hname : (named s r i).name = r.name) :
    Delivers s r c ↔ (parentTable s r 0).name ≠ r.name := by
  obtain ⟨hs, hroot⟩ := rootSelf_of_runOn h hclean
  exact ⟨fun hd h0 => read_directory_self hs hi hname hroot h0 hd, read_directory_child hs hi hname⟩

/-- A step whose `newDir` was zero. -/
theorem Step.on {call : Call} {reply : Reply} (h : Step s (call, reply) s') :
    StepOn s (0, call, reply) s' := by
  obtain ⟨hlegal, fuel, hexec⟩ := h
  cases call with
  | write r => exact ⟨hlegal.1, fuel, hexec⟩
  | delete r => exact ⟨hlegal, fuel, hexec⟩
  | read r => exact ⟨hlegal, fuel, hexec⟩
  | read_directory r => exact ⟨hlegal, fuel, hexec⟩

theorem cleanStack_zero (call : Call) (reply : Reply) : CleanStack (0, call, reply) := by
  cases call with
  | write r => exact fun _ _ _ _ => rfl
  | delete r | read r | read_directory r => trivial

/-- The request for a folder in the root. -/
def folderRequest (name : Bytes 8) : FAT32DriverRequest where
  buf _ := 0
  name := name
  ext := 0
  parent_cluster_number := 2
  buffer_size := 0

/-- The first folder of the root. -/
theorem boot_child (d : Disk) {name : Bytes 8} (h : name ≠ 0) : ∃ reply s c,
    StepOn (boot d) (0, .write (folderRequest name), reply) s ∧ Child s 2 1 c ∧
      (tableAt s 2 1).name = name := by
  obtain ⟨reply, s, hstep, -, e, cs, data, ha, hask⟩ := boot_added d (r := folderRequest name) rfl h
    (.inl rfl)
  have he := hask.folder rfl
  have hnew := ha.tableAt_new (inv_boot d)
  refine ⟨reply, s, e.cluster.toNat, hstep.on, ⟨ha.held_new (inv_boot d), ?_, by rw [hnew]⟩, ?_⟩
  · rw [hnew, he]
    rfl
  · rw [hnew, he]
    rfl

/-- The first folder of the root, with the name `d`. -/
theorem read_directory_own_first : ∃ es s c, Run StepOn (boot 0) es s ∧
    Delivers s (folderRequest (small 2 100 0).name) c := by
  obtain ⟨reply, s, c, hstep, hchild, hname⟩ := boot_child 0 (small_name_ne_zero (p := 2) (m := 0)
    (by decide : (100 : UInt8) ≠ 0))
  have hrun := Run.single hstep
  have hroot := rootSelf_stepOn _ _ _ (inv_boot 0) (rootSelf_boot 0) hstep (cleanStack_zero _ _)
  refine ⟨_, s, c, hrun, (read_directory_own_iff 0 _ s hrun (by simpa using cleanStack_zero _ _)
    (folderRequest (small 2 100 0).name) 1 c hchild hname).mpr fun h => ?_⟩
  rw [parentTable, show clusterIndex (folderRequest (small 2 100 0).name).parent_cluster_number = 2 from rfl,
    hroot] at h
  exact absurd (congrFun h 0) (by decide)

/-- A folder `ROOT` in the root: `read_directory` of it delivers the root. -/
theorem read_directory_root_twin : ∃ es s c, Run StepOn (boot 0) es s ∧ (∀ e ∈ es, CleanStack e) ∧
    Child s 2 1 c ∧ (tableAt s 2 1).name = root_name ∧ ¬ Delivers s (folderRequest root_name) c := by
  obtain ⟨reply, s, c, hstep, hchild, hname⟩ := boot_child 0 root_name_ne_zero
  have hrun := Run.single hstep
  have hclean : ∀ e ∈ [((0 : FAT32DirectoryTable), Call.write (folderRequest root_name), reply)],
      CleanStack e := by
    simpa using cleanStack_zero _ _
  obtain ⟨hs, hroot⟩ := rootSelf_of_runOn hrun hclean
  refine ⟨_, s, c, hrun, hclean, hchild, hname, read_directory_self hs hchild hname hroot ?_⟩
  rw [parentTable, show clusterIndex (folderRequest root_name).parent_cluster_number = 2 from rfl, hroot]
  rfl

/-! ## The key of a file -/

/-- `read` and `delete` find an entry. -/
def Finds (s : Fs) (r : FAT32DriverRequest) : Prop := r.name ≠ 0 ∧ ∃ i, FoundAt (parentTable s r) r i

theorem finds_iff : Finds s r ↔
    r.name ≠ 0 ∧ ∃ i, i ≠ 0 ∧ (parentTable s r i).name = r.name ∧ (parentTable s r i).ext = r.ext := by
  refine and_congr_right fun _ => ⟨fun ⟨i, hi⟩ => ⟨i, hi.spec⟩, fun ⟨i, hi, h⟩ => exists_foundAt hi h⟩

/-- `delete` returns -1 when it finds no entry, and only then. -/
theorem delete_finds {fuel : ℕ} {code : ℤ} (h : delete fuel s r = .ok (code, s')) :
    code = -1 ↔ ¬ Finds s r := by
  rcases delete_cases h with ⟨hno, hcode, -⟩ | ⟨hf, ⟨rfl, -⟩ | rfl⟩
  · exact iff_of_true hcode hno
  · exact iff_of_false (by decide) (not_not.mpr hf)
  · exact iff_of_false (by decide) (not_not.mpr hf)

/-- `read` that finds no entry stores nothing and returns another code than 0. -/
theorem read_not_finds (h : ¬ Finds s r) : ∃ code, code ≠ 0 ∧ read s r = .ok (code, r.buf) := by
  by_cases hname : r.name = 0
  · exact ⟨-1, by decide, by rw [read, if_pos (by simpa using hname)]⟩
  by_cases hsize : r.buffer_size = 0
  · exact ⟨1, by decide, by rw [read, if_neg (by simpa using hname), if_pos hsize]⟩
  · exact ⟨3, by decide, read_miss hname hsize fun i hi hm => h (finds_iff.mpr ⟨hname, i, hi, hm⟩)⟩

/-- `write` returns 1 for the keys that an entry has, and these are the keys that `read` and `delete`
find. -/
structure KeysAgree (newDir : FAT32DirectoryTable) (s : Fs) (r : FAT32DriverRequest) : Prop where
  exists_already : (∃ s', write newDir s r = .ok (1, s')) ↔ ∃ i, Names s r i
  lookups : Finds s r ↔ ∃ i, Names s r i

/-- `write` returns 1 for a name that the parent has. -/
theorem write_taken_iff (newDir : FAT32DirectoryTable) (hparent : 2 ≤ r.parent_cluster_number.toNat)
    (hcells : cellsNeeded r.buffer_size ≤ (emptyCells s.cluster_map).length) :
    (∃ s', write newDir s r = .ok (1, s')) ↔ r.name ≠ 0 ∧ ¬ FreshName (parentTable s r) r.name := by
  by_cases hname : r.name = 0
  · refine iff_of_false ?_ fun h => h.1 hname
    rintro ⟨s', h⟩
    rw [write, if_pos (by simpa using hname)] at h
    exact absurd (Prod.mk.inj (Except.ok.inj h)).1 (by decide)
  constructor
  · rintro ⟨s', h⟩
    rcases write_cases h with ⟨hr, -⟩ | ⟨h0, -⟩ | ⟨h0, -⟩
    · cases hr with
      | taken hf => exact ⟨hname, hf⟩
      | full hlt => omega
    · exact absurd h0 (by decide)
    · exact absurd h0 (by decide)
  · rintro ⟨-, hf⟩
    refine ⟨loaded s (clusterIndex r.parent_cluster_number), ?_⟩
    rw [write_eq newDir s r hname hparent rfl, if_pos]
    exact any_name.mpr (by_contra fun hn => hf fun i hi e => hn ⟨i, hi, e⟩)

/-- A name of the request that the parent has is that of an entry. -/
theorem Inv.taken_iff (hs : Inv s) (hlive : Live s r.parent_cluster_number.toNat) :
    r.name ≠ 0 ∧ ¬ FreshName (parentTable s r) r.name ↔
      ∃ i, Held s r.parent_cluster_number.toNat i ∧ (named s r i).name = r.name := by
  rw [parentTable, clusterIndex_of_lt (hs.live_bounds hlive).2]
  constructor
  · rintro ⟨hname, hf⟩
    obtain ⟨i, hi⟩ := not_forall.mp hf
    obtain ⟨hi0, hn⟩ := Classical.not_imp.mp hi
    have hn := not_not.mp hn
    refine ⟨i, ⟨hlive, hi0, by_contra fun hu => hname ?_⟩, hn⟩
    rw [← hn, hs.free hlive hu]
    rfl
  · rintro ⟨i, hi, hn⟩
    obtain ⟨l, hl⟩ := hs.sound hi
    exact ⟨hn ▸ hl.name, fun hf => hf i hi.slot hn⟩

theorem Inv.finds_iff_names (hs : Inv s) (hlive : Live s r.parent_cluster_number.toNat) :
    Finds s r ↔ ∃ i, Names s r i := by
  have hidx := clusterIndex_of_lt (hs.live_bounds hlive).2
  constructor
  · rintro ⟨hname, i, hi⟩
    rw [parentTable, hidx] at hi
    exact ⟨i, hi.held hs hlive hname, hi.spec.2.1, hi.spec.2.2⟩
  · rintro ⟨i, hi⟩
    obtain ⟨l, hl⟩ := hs.sound hi.held
    refine finds_iff.mpr ⟨hi.name ▸ hl.name, i, hi.held.slot, ?_⟩
    rw [parentTable, hidx]
    exact ⟨hi.name, hi.ext⟩

/-- **When `write` and the lookups agree**: an entry with the name of the request also has its extension. -/
theorem write_key_iff (d : Disk) (es : List (FAT32DirectoryTable × Call × Reply)) (s : Fs)
    (h : Run StepOn (boot d) es s) (hclean : ∀ e ∈ es, CleanStack e) (newDir : FAT32DirectoryTable)
    (r : FAT32DriverRequest) (hlive : Live s r.parent_cluster_number.toNat)
    (hcells : cellsNeeded r.buffer_size ≤ (emptyCells s.cluster_map).length) :
    KeysAgree newDir s r ↔ ∀ i, Held s r.parent_cluster_number.toNat i → (named s r i).name = r.name →
      (named s r i).ext = r.ext := by
  have hs := inv_of_runOn h hclean
  have hwrite := (write_taken_iff newDir (hs.live_bounds hlive).1 hcells).trans (hs.taken_iff hlive)
  constructor
  · intro hk i hi hn
    obtain ⟨j, hj⟩ := hk.exists_already.mp (hwrite.mpr ⟨i, hi, hn⟩)
    obtain rfl := hs.names hi hj.held (hn.trans hj.name.symm)
    exact hj.ext
  · intro hext
    refine ⟨hwrite.trans ⟨fun ⟨i, hi, hn⟩ => ⟨i, hi, hn, hext i hi hn⟩, fun ⟨i, hi⟩ => ⟨i, hi.held, hi.name⟩⟩,
      hs.finds_iff_names hlive⟩

/-- The file `a.txt`, which is there. -/
theorem write_key_again : ∃ reply s, Step (boot 0) (.write firstFile, reply) s ∧ reply.code = 0 ∧
    Held s 2 1 ∧ (tableAt s 2 1).name = firstFile.name ∧ KeysAgree 0 s firstFile := by
  obtain ⟨reply, s, c, hstep, hcode, hs, hheld, htable, hcells⟩ := boot_firstFile_table
  have hentry : tableAt s 2 1 = fileEntry firstFile.name firstFile.ext 5 c := by
    rw [htable, Function.update_self]
  refine ⟨reply, s, hstep, hcode, hheld, by rw [hentry]; rfl, ?_⟩
  have hroom : cellsNeeded firstFile.buffer_size ≤ (emptyCells s.cluster_map).length := by
    have : cellsNeeded firstFile.buffer_size = 1 := by decide
    omega
  refine (write_key_iff 0 _ s (.single hstep.on) (by simpa using cleanStack_zero _ _) 0 firstFile .root
    hroom).mpr fun i hi _ => ?_
  -- the root holds nothing else
  have hone : i = 1 := by
    by_contra hne
    have huse : (tableAt s 2 i).InUse := hi.inUse
    rw [htable, Function.update_of_ne hne, boot_slot 0 hi.slot] at huse
    exact not_inUse_zero huse
  have hnamed : named s firstFile 1 = fileEntry firstFile.name firstFile.ext 5 c := hentry
  rw [hone, hnamed]
  rfl

/-- After the file `a.txt`, a file `a` without an extension: `write` returns 1, and no entry has its key. -/
theorem write_key_other_ext : ∃ es s, Run StepOn (boot 0) es s ∧ (∀ e ∈ es, CleanStack e) ∧ Live s 2 ∧
    (∃ n, ¬ (parentTable s (small 2 97 1) n).InUse) ∧ SizeOk (small 2 97 1).buffer_size ∧
    cellsNeeded (small 2 97 1).buffer_size ≤ (emptyCells s.cluster_map).length ∧
    ¬ KeysAgree 0 s (small 2 97 1) := by
  obtain ⟨reply, s, c, hstep, -, hs, hheld, htable, hlen⟩ := boot_firstFile_table
  have hroot : parentTable s (small 2 97 1) = tableAt s 2 := rfl
  have hfree : ¬ (parentTable s (small 2 97 1) 2).InUse := by
    rw [hroot, htable, Function.update_of_ne (by decide), boot_slot 0 (by decide)]
    exact not_inUse_zero
  have hcells : cellsNeeded (small 2 97 1).buffer_size ≤ (emptyCells s.cluster_map).length := by
    have : cellsNeeded (small 2 97 1).buffer_size = 1 := by decide
    omega
  refine ⟨_, s, .single hstep.on, by simpa using cleanStack_zero _ _, .root, ⟨2, hfree⟩, sizeOk_one, hcells,
    fun hk => ?_⟩
  -- the entry has the name of the request
  have hentry : named s (small 2 97 1) 1 = fileEntry firstFile.name firstFile.ext 5 c := by
    show tableAt s 2 1 = _
    rw [htable, Function.update_self]
  have hsame : (named s (small 2 97 1) 1).name = (small 2 97 1).name := by
    rw [hentry]
    rfl
  have hparent : 2 ≤ (small 2 97 1).parent_cluster_number.toNat := by decide
  have hwrite := (write_taken_iff 0 hparent hcells).trans (hs.taken_iff .root)
  obtain ⟨j, hj⟩ := hk.exists_already.mp (hwrite.mpr ⟨1, hheld, hsame⟩)
  obtain rfl := hs.names hj.held hheld (hj.name.trans hsame.symm)
  have hext : firstFile.ext = (small 2 97 1).ext := by
    rw [← hj.ext, hentry]
    rfl
  exact absurd (congrFun hext 0) (by decide)

end KeropOS
