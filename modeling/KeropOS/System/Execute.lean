import KeropOS.Shell.Copy
import KeropOS.Shell.Strcmp
import KeropOS.System.Programs

/-!
# Running a program from the shell

`eksek` of `user-shell.c`, the command `./name` or `../name`. It takes the size from the directory, and leaves
the bytes to system call 13, whose code does not tell whether anything was read.

* `find_program`, `eksek`; `PassesProgram`, `RunsOn`: the loose comparison of the names;
* **`eksek_eq`**: the command behind its checks;
* **`exec_starts_iff`**: when the program that starts is the file that was named.
-/

namespace KeropOS

open PROCESS_STATE Packed Translation Transition

/-! ## The command -/

/-- All nine bytes of `realFileName`: the test `parseId > 8` is commented out. -/
def program_name (filename : Buffer) : List UInt8 :=
  List.ofFn fun a : Fin 9 => if a < name_length filename 10 0 then filename a else 0

/-- The loop over the table: the first entry that passes for the file. -/
def find_program (curr_dir : FAT32DirectoryTable) (name : List UInt8) :
    List (Fin 64) → Except Trap (Option (Fin 64))
  | [] => .ok none
  | i :: slots =>
    match strcmp_within (table_bytes curr_dir i) name with
    | .error t => .error t
    | .ok c => if c = 0 then .ok (some i) else find_program curr_dir name slots

/-- The request for system call 13. -/
def program_request (filename : Buffer) (st : DirStack) (parseId : ℕ) (filesize : UInt32) : UserRequest where
  buf := 0
  name := (file_key filename).1
  ext := (file_key filename).2
  parent_cluster_number := st.cluster parseId
  buffer_size := filesize

/-- `eksek`. -/
def eksek (L : Linkage) (fuel : ℕ) (m : Machine) (filename : Buffer) (st : DirStack) :
    Except Trap (Option String × Machine) :=
  match destination fuel filename with
  | .error t => .error t
  | .ok (parseId, filename) =>
    if 0 < parseId ∧ st.dir_stack_index ≤ parseId then .ok (puts "INVALID DESTINATION PATH\n" 18, m)
    else if (read_directory m.fs (directory_request st parseId)).1 ≠ 0 then
      .ok (puts "FAILED TO READ DSTFOLDER\n" 25, m)
    else
      let curr_dir := tableLayout.decode (read_clusters m.fs.disk (st.cluster parseId))
      match find_program curr_dir (program_name filename) (List.finRange 64) with
      | .error t => .error t
      | .ok none => .ok (puts "FILE NOT FOUND\n" 15, m)
      | .ok (some i) =>
        match create_process L m (program_request filename st parseId (curr_dir i).filesize) with
        | none => .error .outOfBounds
        | some (retcode, m) => .ok (if retcode ≠ 0 then puts "FAILED TO EXEC SRCFILE\n" 23 else none, m)

variable {L : Linkage} {m m' : Machine} {st : DirStack} {fuel k : ℕ} {arg rest : Buffer} {bytes : List UInt8}
  {i : Fin 64}

/-! ## The entry -/

section

variable {s1 s2 : List UInt8} {t : FAT32DirectoryTable} {filename : Buffer} {i k : Fin 64} {e : Trap}

theorem strcmp_within_zero_iff : strcmp_within s1 s2 = .ok 0 ↔
    ∃ n < s2.length, (∀ k ≤ n, s1[k]? = s2[k]?) ∧ s1[n + 1]? = some 0 := by
  fun_induction strcmp_within s1 s2 with
  | case1 => simp
  | case2 => simp
  | case3 a s1 b s2 hab =>
    constructor
    · exact fun h => absurd (char_sub_eq_zero.mp (Except.ok.inj h)) hab
    · rintro ⟨n, -, hpre, -⟩
      exact absurd (by simpa using hpre 0 (Nat.zero_le _)) hab
  | case4 => simp
  | case5 a b s2 hab s1 =>
    refine iff_of_true rfl ⟨0, Nat.succ_pos _, fun k hk => ?_, rfl⟩
    obtain rfl := Nat.le_zero.mp hk
    simpa using hab
  | case6 a b s2 hab c s1 hc ih =>
    rw [ih]
    constructor
    · rintro ⟨n, hn, hpre, hend⟩
      refine ⟨n + 1, Nat.succ_lt_succ hn, fun k hk => ?_, hend⟩
      cases k with
      | zero => simpa using hab
      | succ k => exact hpre k (Nat.le_of_succ_le_succ hk)
    · rintro ⟨n, hn, hpre, hend⟩
      cases n with
      | zero => exact absurd (Option.some.inj hend) hc
      | succ n => exact ⟨n, Nat.lt_of_succ_lt_succ hn, fun k hk => hpre (k + 1) (Nat.succ_le_succ hk), hend⟩

/-- The comparison reads behind the second string when that is at the front of the first, without a zero
before its end. -/
theorem strcmp_within_error_iff (hlen : s2.length < s1.length) : strcmp_within s1 s2 = .error e ↔
    (∀ k < s2.length, s1[k]? = s2[k]? ∧ s1[k + 1]? ≠ some 0) ∧ e = .outOfBounds := by
  fun_induction strcmp_within s1 s2 with
  | case1 => simp at hlen
  | case2 => simp [eq_comm]
  | case3 a s1 b s2 hab =>
    refine iff_of_false (by simp) fun h => hab ?_
    simpa using (h.1 0 (Nat.succ_pos _)).1
  | case4 => simp at hlen
  | case5 a b s2 hab s1 =>
    refine iff_of_false (by simp) fun h => ?_
    exact absurd rfl (h.1 0 (Nat.succ_pos _)).2
  | case6 a b s2 hab c s1 hc ih =>
    rw [ih (by simpa using hlen)]
    refine and_congr_left fun _ => ⟨fun h k hk => ?_, fun h k hk => h (k + 1) (Nat.succ_lt_succ hk)⟩
    cases k with
    | zero => exact ⟨by simpa using hab, by simpa using hc⟩
    | succ k => exact h k (Nat.lt_of_succ_lt_succ hk)

/-- The ninth byte of `realFileName`. -/
def ninth (filename : Buffer) : UInt8 := if 8 < name_length filename 10 0 then filename 8 else 0

/-- Entry `k` passes for the program: its name is at the front of the one asked for, or is followed by the
ninth character. -/
def PassesProgram (t : FAT32DirectoryTable) (filename : Buffer) (k : Fin 64) : Prop :=
  PassesLoosely t (dest_name filename) k ∨
    ((t k).name = dest_name filename ∧ ext_bytes t k 0 = ninth filename ∧ ext_bytes t k 1 = 0)

/-- The comparison with entry `k` goes on behind the nine bytes. -/
def RunsOn (t : FAT32DirectoryTable) (filename : Buffer) (k : Fin 64) : Prop :=
  (t k).name = dest_name filename ∧ (∀ m : Fin 8, 0 < m.val → (t k).name m ≠ 0) ∧
    ext_bytes t k 0 = ninth filename ∧ ext_bytes t k 0 ≠ 0 ∧ ext_bytes t k 1 ≠ 0

theorem program_name_lt (filename : Buffer) (j : Fin 8) :
    (program_name filename)[j.val]? = some (dest_name filename j) := by
  rw [program_name, List.getElem?_ofFn, dif_pos (by omega), dest_name]

theorem program_name_ninth (filename : Buffer) : (program_name filename)[8]? = some (ninth filename) := by
  rw [program_name, List.getElem?_ofFn, dif_pos (by omega), ninth]

theorem length_program_name (filename : Buffer) : (program_name filename).length = 9 := List.length_ofFn

theorem table_bytes_ext_bytes (t : FAT32DirectoryTable) (i : Fin 64) (k : Fin 3) :
    (table_bytes t i)[8 + k.val]? = some (ext_bytes t i k) :=
  (table_bytes_ext t i k).trans (congrArg some (ext_bytes_eq t i k).symm)

theorem passesProgram_iff :
    strcmp_within (table_bytes t k) (program_name filename) = .ok 0 ↔ PassesProgram t filename k := by
  have hname := program_name_lt filename
  have hninth := program_name_ninth filename
  have hext0 := table_bytes_ext_bytes t k 0
  have hext1 := table_bytes_ext_bytes t k 1
  rw [strcmp_within_zero_iff, length_program_name, PassesProgram]
  constructor
  · rintro ⟨n, hn, hpre, hend⟩
    rcases Nat.lt_or_eq_of_le (Nat.le_of_lt_succ hn) with hn | rfl
    · refine .inl (foundIn_request_name_iff.mp (strcmp_zero_iff.mpr ⟨n, fun j hj => ?_, hend⟩))
      have hj8 : j < 8 := by omega
      rw [hpre j hj, hname ⟨j, hj8⟩]
      exact congrArg some (request_name_of_lt _ ⟨j, hj8⟩).symm
    · refine .inr ⟨funext fun j => ?_, ?_, ?_⟩
      · exact Option.some.inj ((table_bytes_name t k j).symm.trans ((hpre j (by omega)).trans (hname j)))
      · exact Option.some.inj (hext0.symm.trans ((hpre 8 le_rfl).trans hninth))
      · exact Option.some.inj (hext1.symm.trans hend)
  · rintro ((⟨m, hm, hzero, hpre⟩ | ⟨heq, h0⟩) | ⟨heq, h0, h1⟩)
    · have hpos : 0 < m.val := Fin.pos_iff_ne_zero.mpr hm
      refine ⟨m.val - 1, by omega, fun j hj => ?_, ?_⟩
      · have hjm : j < m.val := by omega
        rw [table_bytes_name t k ⟨j, hjm.trans m.isLt⟩, hname ⟨j, hjm.trans m.isLt⟩, hpre ⟨j, _⟩ hjm]
      · rw [Nat.sub_add_cancel hpos, table_bytes_name, hzero]
    · refine ⟨7, by decide, fun j hj => ?_, (table_bytes_ext t k 0).trans (congrArg some h0)⟩
      have hj8 : j < 8 := by omega
      rw [table_bytes_name t k ⟨j, hj8⟩, hname ⟨j, hj8⟩, heq]
    · refine ⟨8, by decide, fun j hj => ?_, hext1.trans (congrArg some h1)⟩
      rcases Nat.lt_or_eq_of_le hj with hj | rfl
      · rw [table_bytes_name t k ⟨j, hj⟩, hname ⟨j, hj⟩, heq]
      · rw [hninth, ← h0]
        exact hext0

theorem runsOn_iff : strcmp_within (table_bytes t k) (program_name filename) = .error e ↔
    RunsOn t filename k ∧ e = .outOfBounds := by
  have hname := program_name_lt filename
  have hninth := program_name_ninth filename
  have hext0 := table_bytes_ext_bytes t k 0
  have hext1 := table_bytes_ext_bytes t k 1
  have hlen : (program_name filename).length < (table_bytes t k).length := by
    rw [length_program_name, table_bytes, List.length_drop, List.length_ofFn]
    omega
  rw [strcmp_within_error_iff hlen, length_program_name, RunsOn]
  refine and_congr_left fun _ => ⟨fun h => ⟨funext fun j => ?_, fun m hm hzero => ?_, ?_, ?_, ?_⟩, ?_⟩
  · exact Option.some.inj ((table_bytes_name t k j).symm.trans ((h j (by omega)).1.trans (hname j)))
  · apply (h (m.val - 1) (by omega)).2
    rw [Nat.sub_add_cancel hm, table_bytes_name, hzero]
  · exact Option.some.inj (hext0.symm.trans ((h 8 (by decide)).1.trans hninth))
  · exact fun h0 => (h 7 (by decide)).2 (hext0.trans (congrArg some h0))
  · exact fun h1 => (h 8 (by decide)).2 (hext1.trans (congrArg some h1))
  · rintro ⟨heq, hne, h0, hne0, hne1⟩ j hj
    rcases Nat.lt_or_eq_of_le (Nat.le_of_lt_succ hj) with hj | rfl
    · refine ⟨by rw [table_bytes_name t k ⟨j, hj⟩, hname ⟨j, hj⟩, heq], fun hend => ?_⟩
      rcases Nat.lt_or_eq_of_le (Nat.succ_le_of_lt hj) with hj' | hj'
      · refine hne ⟨j + 1, hj'⟩ (Nat.succ_pos j) ?_
        exact Option.some.inj ((table_bytes_name t k ⟨j + 1, hj'⟩).symm.trans hend)
      · rw [show j + 1 = 8 from hj'] at hend
        exact hne0 (Option.some.inj (hext0.symm.trans hend))
    · refine ⟨?_, fun hend => hne1 (Option.some.inj (hext1.symm.trans hend))⟩
      rw [hninth, ← h0]
      exact hext0

theorem PassesProgram.head (h : PassesProgram t filename k) : (t k).name 0 = dest_name filename 0 := by
  rcases h with (⟨m, hm, -, hpre⟩ | ⟨heq, -⟩) | ⟨heq, -⟩
  · exact hpre 0 (Fin.pos_iff_ne_zero.mpr hm)
  · rw [heq]
  · rw [heq]

/-- Entry `i` is the first that passes, and the comparisons up to it end within the names. -/
def FirstProgram (t : FAT32DirectoryTable) (filename : Buffer) (i : Fin 64) : Prop :=
  PassesProgram t filename i ∧ ∀ j < i, ¬ PassesProgram t filename j ∧ ¬ RunsOn t filename j

/-- The loop takes the first entry that passes, if no comparison before it runs on. -/
theorem find_program_spec {slots : List (Fin 64)} (hsort : slots.Pairwise (· < ·)) :
    find_program t (program_name filename) slots = .ok (some i) ↔
      i ∈ slots ∧ PassesProgram t filename i ∧
        ∀ j < i, j ∈ slots → ¬ PassesProgram t filename j ∧ ¬ RunsOn t filename j := by
  induction slots with
  | nil => simp [find_program]
  | cons k slots ih =>
    obtain ⟨hk, hsort⟩ := List.pairwise_cons.mp hsort
    have hpass : strcmp_within (table_bytes t k) (program_name filename) = .ok 0 ↔ PassesProgram t filename k :=
      passesProgram_iff
    have hruns : ∀ e, strcmp_within (table_bytes t k) (program_name filename) = .error e ↔
        RunsOn t filename k ∧ e = .outOfBounds := fun e => runsOn_iff
    rw [find_program]
    cases hc : strcmp_within (table_bytes t k) (program_name filename) with
    | error e =>
      rw [hc] at hpass hruns
      have hpasses : ¬ PassesProgram t filename k := fun h => absurd (hpass.mpr h) (by simp)
      have hrunsOn : RunsOn t filename k := ((hruns e).mp rfl).1
      refine iff_of_false (by simp) ?_
      rintro ⟨hmem, hi, hfirst⟩
      rcases List.mem_cons.mp hmem with rfl | hmem
      · exact hpasses hi
      · exact (hfirst k (hk i hmem) (List.mem_cons_self ..)).2 hrunsOn
    | ok c =>
      rw [hc, Except.ok.injEq] at hpass
      rw [hc] at hruns
      have hdiffers : ¬ RunsOn t filename k := fun h => absurd ((hruns _).mpr ⟨h, rfl⟩) (by simp)
      dsimp only
      split_ifs with htaken
      · have hm := hpass.mp htaken
        rw [Except.ok.injEq, Option.some_inj]
        constructor
        · rintro rfl
          refine ⟨List.mem_cons_self .., hm, fun j hj hmem => ?_⟩
          rcases List.mem_cons.mp hmem with rfl | hmem
          · exact absurd hj (lt_irrefl _)
          · exact absurd hj (lt_asymm (hk j hmem))
        · rintro ⟨hmem, -, hfirst⟩
          rcases List.mem_cons.mp hmem with rfl | hmem
          · rfl
          · exact absurd hm (hfirst k (hk i hmem) (List.mem_cons_self ..)).1
      · have hm := hpass.not.mp htaken
        rw [ih hsort]
        constructor
        · rintro ⟨hmem, hi, hfirst⟩
          refine ⟨List.mem_cons_of_mem _ hmem, hi, fun j hj hjmem => ?_⟩
          rcases List.mem_cons.mp hjmem with rfl | hjmem
          · exact ⟨hm, hdiffers⟩
          · exact hfirst j hj hjmem
        · rintro ⟨hmem, hi, hfirst⟩
          rcases List.mem_cons.mp hmem with rfl | hmem
          · exact absurd hi hm
          · exact ⟨hmem, hi, fun j hj hjmem => hfirst j hj (List.mem_cons_of_mem _ hjmem)⟩

theorem find_program_first : find_program t (program_name filename) (List.finRange 64) = .ok (some i) ↔
    FirstProgram t filename i := by
  rw [find_program_spec (List.pairwise_lt_finRange 64), FirstProgram]
  simp only [List.mem_finRange, true_and, true_implies]

end

/-- **The command behind its checks**, for a path to a directory on the stack. -/
theorem eksek_eq (hs : Inv m.fs) (hroot : RootSelf m.fs) (hst : ValidStack m.fs st)
    (hpath : destination fuel arg = .ok (k, rest)) (habove : k < st.dir_stack_index) :
    eksek L fuel m arg st =
      match find_program (tableAt m.fs (st.cluster k).toNat) (program_name rest) (List.finRange 64) with
      | .error t => .error t
      | .ok none => .ok (puts "FILE NOT FOUND\n" 15, m)
      | .ok (some i) =>
        match create_process L m
          (program_request rest st k (tableAt m.fs (st.cluster k).toNat i).filesize) with
        | none => .error .outOfBounds
        | some (retcode, m) => .ok (if retcode ≠ 0 then puts "FAILED TO EXEC SRCFILE\n" 23 else none, m) := by
  have hcode := hst.read_directory_code hs hroot k
  have htable : tableLayout.decode (read_clusters m.fs.disk (st.cluster k)) =
    tableAt m.fs (st.cluster k).toNat := by
    rw [read_clusters_eq, hst.clusterIndex hs, tableAt]
  have hup : ¬ (0 < k ∧ st.dir_stack_index ≤ k) := fun h => absurd habove (not_lt.mpr h.2)
  rw [eksek, hpath]
  simp only [hup, if_false, hcode, ne_eq, not_true_eq_false, htable]

/-- No entry of a directory has a size above that of the largest file. -/
theorem Inv.filesize_le {s : Fs} {p : ℕ} (hs : Inv s) (hroot : RootSelf s) (hp : Live s p) (i : Fin 64) :
    (tableAt s p i).filesize.toNat ≤ 255 * 2048 := by
  by_cases h0 : i = 0
  · obtain ⟨q, name, hself, -, -⟩ := hs.upward hroot hp
    rw [h0, hself]
    exact Nat.zero_le _
  · by_cases huse : (tableAt s p i).InUse
    · obtain ⟨l, hsound⟩ := hs.sound ⟨hp, h0, huse⟩
      rcases hsound.kind with hf | hd
      · exact hf.size.2
      · rw [hd.eq]
        exact Nat.zero_le _
    · rw [hs.free hp huse]
      exact Nat.zero_le _

/-! ## What starts -/

/-- Process creation takes the request. -/
def Admits (L : Linkage) (s : Kernel) (request : ProcessRequest) : Prop :=
  ∃ s', process_create_user_process L s request = .ok (0, s')

/-- With a request of a small size there is a free page frame for it. -/
theorem Admits.free {s : Kernel} {request : ProcessRequest} (h : Admits L s request) (hb : Budget s.paging)
    (hsize : request.buffer_size.toNat ≤ 255 * 2048) : freeFrames s.paging ≠ 0 := by
  obtain ⟨s', hcreate⟩ := h
  rw [← create_as_single] at hcreate
  have hne : request.buffer_size ≠ 0xFFC00000 := by
    intro he
    rw [he] at hsize
    exact absurd hsize (by decide)
  rcases create_as_cases hcreate with ⟨-, hne, -⟩ | ⟨-, h3, -⟩ | ⟨hadmitted, -, -⟩
  · exact absurd rfl hne
  · exact absurd h3 (by decide)
  · have hpos := hadmitted.free_pos hne
    rw [hb.count] at hpos
    omega

theorem readRoom_eq {size : UInt32} (h : size.toNat ≤ 255 * 2048) :
    readRoom size = clustersFor size.toNat * 2048 := by
  unfold readRoom clustersFor
  rw [Nat.mod_eq_of_lt (by omega)]

/-- The command starts the file: a new process is about to start at its first byte, with all its bytes. -/
def Starts (L : Linkage) (fuel : ℕ) (m : Machine) (arg : Buffer) (st : DirStack)
    (bytes : List UInt8) : Prop :=
  ∃ m' p, eksek L fuel m arg st = .ok (none, m') ∧ m.kernel.list_of_process p = false ∧
    StartsAs L m' p 0 bytes

/-- The file that is named is in its directory. -/
def NamesProgram (m : Machine) (st : DirStack) (k : ℕ) (rest : Buffer) (bytes : List UInt8) : Prop :=
  Present m.fs ⟨(st.cluster k).toNat, dest_name rest, dest_ext rest⟩ (.file bytes)

/-- The first entry that passes is long enough, and process creation takes its size. -/
def Startable (L : Linkage) (m : Machine) (st : DirStack) (k : ℕ) (rest : Buffer)
    (bytes : List UInt8) : Prop :=
  ∃ i, FirstProgram (tableAt m.fs (st.cluster k).toNat) rest i ∧
    clustersFor bytes.length ≤ clustersFor (tableAt m.fs (st.cluster k).toNat i).filesize.toNat ∧
    Admits L m.kernel
      (program_request rest st k (tableAt m.fs (st.cluster k).toNat i).filesize).process

/-- With the entry found long enough the file is loaded whole. -/
theorem startable_starts (ho : Orderly L m) (hs : Inv m.fs) (hroot : RootSelf m.fs) (hst : ValidStack m.fs st)
    (hpath : destination fuel arg = .ok (k, rest)) (habove : k < st.dir_stack_index)
    (hfile : NamesProgram m st k rest bytes) (h : Startable L m st k rest bytes) :
    Starts L fuel m arg st bytes := by
  obtain ⟨i, hfirst, hsize, hadmits⟩ := h
  have hle := hs.filesize_le hroot (hst.cluster_live k) i
  set r := program_request rest st k (tableAt m.fs (st.cluster k).toNat i).filesize with hr
  have hroom : readRoom r.buffer_size = clustersFor
    (tableAt m.fs (st.cluster k).toNat i).filesize.toNat * 2048 :=
    readRoom_eq hle
  have hall : bytes.length ≤ loadedBytes r bytes := by
    rw [loadedBytes, hroom]
    unfold clustersFor at hsize ⊢
    omega
  have hfits : r.buf.toNat % 2 ^ 22 + loadedBytes r bytes ≤ 2 ^ 22 := by
    have hbuf : r.buf.toNat = 0 := rfl
    have hbytes : loadedBytes r bytes ≤ readRoom r.buffer_size := min_le_left _ _
    rw [hroom] at hbytes
    unfold clustersFor at hbytes
    omega
  have hfree : freeFrames m.kernel.paging ≠ 0 := hadmits.free ho.budget hle
  obtain ⟨s', hcreate⟩ := hadmits
  obtain ⟨m', hcreated⟩ := create_process_returns m r ho.kinv hs hfile hfree hfits hcreate
  obtain ⟨p, d, hc, hstarts⟩ := create_starts ho.kinv hcreated
  refine ⟨m', p, ?_, hc.slot.1, ?_⟩
  · rw [eksek_eq hs hroot hst hpath habove, find_program_first.mpr hfirst]
    dsimp only
    rw [← hr, hcreated]
    rfl
  · have hmemory := hstarts hs hfile
    rwa [List.take_of_length_le hall] at hmemory

/-- What a command that starts the file has done. -/
theorem starts_inv (hs : Inv m.fs) (hroot : RootSelf m.fs) (hst : ValidStack m.fs st)
    (hpath : destination fuel arg = .ok (k, rest)) (habove : k < st.dir_stack_index)
    (h : Starts L fuel m arg st bytes) :
    ∃ i m' p, FirstProgram (tableAt m.fs (st.cluster k).toNat) rest i ∧
      create_process L m (program_request rest st k (tableAt m.fs (st.cluster k).toNat i).filesize) =
      some (0, m') ∧
      m.kernel.list_of_process p = false ∧ StartsAs L m' p 0 bytes := by
  obtain ⟨m', p, hexec, hp, hstarts⟩ := h
  rw [eksek_eq hs hroot hst hpath habove] at hexec
  rcases hfind : find_program (tableAt m.fs (st.cluster k).toNat) (program_name rest) (List.finRange 64) with
    e | _ | i
  · simp only [hfind] at hexec
    exact absurd hexec (by simp)
  · simp only [hfind] at hexec
    exact absurd (Prod.mk.inj (Except.ok.inj hexec)).1 (by simp [puts])
  · simp only [hfind] at hexec
    cases hcreate : create_process L m
        (program_request rest st k (tableAt m.fs (st.cluster k).toNat i).filesize) with
    | none =>
      simp only [hcreate] at hexec
      exact absurd hexec (by simp)
    | some result =>
      obtain ⟨code, m₁⟩ := result
      simp only [hcreate] at hexec
      obtain ⟨htext, rfl⟩ := Prod.mk.inj (Except.ok.inj hexec)
      have hcode : code = 0 := by
        by_contra hne
        rw [if_pos hne] at htext
        exact absurd htext (by simp [puts])
      rw [hcode] at hcreate
      exact ⟨i, m₁, p, find_program_first.mp hfind, hcreate, hp, hstarts⟩

/-- When the file is loaded whole whatever the page frame held, the entry found was long enough. -/
theorem startable_of_starts (ho : Orderly L m) (hs : Inv m.fs) (hroot : RootSelf m.fs)
    (hst : ValidStack m.fs st)
    (hpath : destination fuel arg = .ok (k, rest)) (habove : k < st.dir_stack_index)
    (hfile : NamesProgram m st k rest bytes) (h : ∀ ram, Starts L fuel { m with ram := ram } arg st bytes) :
    Startable L m st k rest bytes := by
  obtain ⟨i, m', p, hfirst, hcreate, -, -⟩ := starts_inv hs hroot hst hpath habove (h m.ram)
  refine ⟨i, hfirst, ?_, m'.kernel, (create_process_cases hcreate).2.1⟩
  have hle := hs.filesize_le hroot (hst.cluster_live k) i
  obtain ⟨r, hr⟩ : ∃ r, r = program_request rest st k (tableAt m.fs (st.cluster k).toNat i).filesize :=
    ⟨_, rfl⟩
  obtain ⟨a, ha⟩ : ∃ a, a = clustersFor (tableAt m.fs (st.cluster k).toNat i).filesize.toNat * 2048 :=
    ⟨_, rfl⟩
  by_contra hshort
  -- `a` is the first byte behind what is loaded
  have hlt : a < bytes.length := by
    rw [ha]
    unfold clustersFor at hshort ⊢
    omega
  have hsmall : a < 2 ^ 32 := by
    rw [ha]
    unfold clustersFor
    omega
  have hbehind : loadedBytes r bytes ≤ a := by
    rw [hr, ha]
    exact (min_le_left _ _).trans (readRoom_eq hle).le
  -- a memory that does not hold it
  obtain ⟨m₀, hfs, hkernel, hram⟩ : ∃ m₀ : Machine, m₀.fs = m.fs ∧ m₀.kernel = m.kernel ∧
      m₀ = { m with ram := fun _ => bytes[a] + 1 } := ⟨{ m with ram := fun _ => bytes[a] + 1 }, rfl, rfl, rfl⟩
  have hstart : Starts L fuel m₀ arg st bytes := hram ▸ h fun _ => bytes[a] + 1
  obtain ⟨j, m₁, q, hfirst', hcreate', hq, hstarts⟩ :=
    starts_inv (hfs ▸ hs) (hfs ▸ hroot) (hfs ▸ hst) hpath habove hstart
  rw [hfs] at hfirst' hcreate'
  obtain rfl : j = i :=
    Option.some.inj (Except.ok.inj ((find_program_first.mpr hfirst').symm.trans
      (find_program_first.mpr hfirst)))
  rw [← hr] at hcreate'
  have hpresent : Present m₀.fs (r.driver 0).key (.file bytes) := by
    rw [hfs, hr]
    exact hfile
  have hleft := create_leaves (hkernel ▸ ho.kinv) (hfs ▸ hs) hpresent hcreate' ⟨hq, hstarts.live⟩ hlt hsmall
    hbehind
  have hbuf : r.buf = 0 := by rw [hr, program_request]
  have hbyte := hstarts.memory a hlt
  rw [← hbuf, hleft, List.getElem?_eq_getElem hlt, view, hram] at hbyte
  obtain ⟨c, -, hc⟩ := Option.map_eq_some_iff.mp hbyte
  exact absurd hc (by simp)

/-- **When `./name` runs the file named**: the first entry that passes for it has as many clusters, and
process creation takes a program of that size. This is so from a new drive on, after power cycles, the start,
and any run that keeps to the rules of the files, in every directory on the stack. -/
theorem exec_starts_iff (L : Linkage) (d : Disk) (es : List CycleEvent) (s : Fs) (fuel : ℕ) (ram : Ram)
    (screen : Screen.Terminal) (m₀ m : Machine) (hs : List Happening) (st : DirStack) (fuel' k : ℕ)
    (arg rest : Buffer) (bytes : List UInt8) (hd : is_empty_storage d = true)
    (hes : Run CycleStep (mount d) es s)
    (hstart : kernel_setup L fuel s.disk ram screen = some m₀) (hrun : Run (PlainStep L) m₀ hs m)
    (hst : ValidStack m.fs st) (hpath : destination fuel' arg = .ok (k, rest))
    (habove : k < st.dir_stack_index)
    (hfile : NamesProgram m st k rest bytes) :
    (∀ ram, Starts L fuel' { m with ram := ram } arg st bytes) ↔ Startable L m st k rest bytes := by
  have ho : Orderly L m :=
    hrun.invariant (Orderly L) (fun _ _ _ hs h => orderly_step L _ _ _ hs h.1) (orderly_start hstart)
  have hcycles := cycles_machine hes hstart hrun
  obtain ⟨M, -, hinv, -⟩ := tracks_of_cycles hd hcycles
  have hroot := rootSelf_of_cycles hd hcycles
  constructor
  · exact startable_of_starts ho hinv.1 hroot hst hpath habove hfile
  · intro h ram
    have horderly : Orderly L { m with ram := ram } := ho.congr rfl
    exact startable_starts horderly hinv.1 hroot hst hpath habove hfile h

/-- `./shell` in the root, after the start. -/
theorem exec_starts_iff_shell : ∃ d m₀,
    kernel_setup someLinkage 16 d (fun _ => 0) (Screen.start fun _ => 0) = some m₀ ∧
      ∀ ram, Starts someLinkage 16 { m₀ with ram := ram } (typed (ascii "./shell") 0) (shellStack 0)
        (firstBytes 23 firstShell) := by
  obtain ⟨s, m₀, hes, hstart, -, -, c, hroot⟩ := some_start
  have hpath : destination 16 (typed (ascii "./shell") 0) = .ok (0, typed (ascii "shell") 0) := by
    have hdot : strcmp dot_slash (typed (ascii "./shell") 0) = some 0 := by decide
    have hup : strcmp dot_dot_slash (typed (ascii "shell") 0) ≠ some 0 := by decide
    have hshift : shift (typed (ascii "./shell") 0) 2 = typed (ascii "shell") 0 := shift_typed (ascii "./")
    rw [destination, here, if_pos hdot, hshift, if_neg hup]
  have hname : dest_name (typed (ascii "shell") 0) = shellreq.name := by decide
  have hext : dest_ext (typed (ascii "shell") 0) = shellreq.ext := by decide
  have hfile : NamesProgram m₀ (shellStack 0) 0 (typed (ascii "shell") 0) (firstBytes 23 firstShell) := by
    obtain ⟨M, hmap, -, hM⟩ := tracks_machine is_empty_storage_zero hes hstart .nil
    have hlast : Run MapStep (fun _ => none)
      ([] ++ [(.write (Inserter.request (ascii "shell") 2 23 firstShell), ⟨0, firstShell⟩)]) M := hmap
    rw [NamesProgram, hname, hext]
    apply (hM _ _).mp
    exact (congrArg M (shell_key 23 firstShell).symm).trans (written_last (by decide) hlast)
  have hcluster : ((shellStack 0).cluster 0).toNat = 2 := rfl
  have hentry : (tableAt m₀.fs 2 1).filesize = 23 := by
    rw [hroot, Function.update_self]
    rfl
  refine ⟨s.disk, m₀, hstart, (exec_starts_iff someLinkage 0 _ s 16 _ _ m₀ m₀ [] (shellStack 0) 16 0 _ _ _
    is_empty_storage_zero hes hstart .nil (validStack_shellStack _ _) hpath Nat.one_pos hfile).mpr
    ⟨1, ?_, ?_, ?_⟩⟩
  · rw [hcluster]
    constructor
    · have hpasses : ∃ m : Fin 8, m ≠ 0 ∧ Inserter.scan_name (ascii "shell") m = 0 ∧
        ∀ j < m, Inserter.scan_name (ascii "shell") j = shellreq.name j := by decide
      rw [PassesProgram, PassesLoosely, Heads, hroot, Function.update_self, hname]
      exact .inl (.inl hpasses)
    · intro j hj
      obtain rfl : j = 0 := Fin.ext (Nat.lt_one_iff.mp hj)
      have hother : (tableAt m₀.fs 2 0).name 0 ≠ dest_name (typed (ascii "shell") 0) 0 := by
        have hne : root_name 0 ≠ shellreq.name 0 := by decide
        rw [hroot, Function.update_of_ne (by decide), boot_root, Function.update_self, hname]
        exact hne
      exact ⟨fun h => hother h.head, fun h => hother (congrFun h.1 0)⟩
  · rw [hcluster, hentry]
    exact le_of_eq (by simp [firstBytes])
  · rw [hcluster, hentry]
    obtain ⟨hcount, hslot, hdir, hfree, hfree'⟩ := room_after_start hstart
    refine create_admits (by rw [hcount]; decide) (by decide) ?_ (by decide) ⟨1, hslot⟩ ⟨1, hdir⟩
    unfold paging_allocate_check
    rw [hfree']
    decide

end KeropOS
