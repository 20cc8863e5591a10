import KeropOS.Fat.Reading
import KeropOS.Proc.Admission
import KeropOS.Proc.Inheritance
import KeropOS.System.Machine

/-!
# Loading

* **`create_process_cases`**: what process creation does to the kernel and to the memory;
* **`load_file`**: it puts the bytes of the file into the memory of the new process;
* **`create_process_returns`**, **`kernel_setup_returns`**: when creation, and the start, go through.
-/

namespace KeropOS

open PROCESS_STATE Translation Transition

variable {L : Linkage} {m m' m₀ m₁ : Machine} {r : UserRequest} {code : ℤ} {p : Fin 16} {fuel : ℕ}

/-! ## Process creation -/

/-- **What `create_process` does**: the kernel's part, and with a new directory, the stores of the
program's bytes through it. -/
theorem create_process_cases (h : create_process L m r = some (code, m')) :
    m' = { m with kernel := m'.kernel, ram := m'.ram } ∧
      process_create_user_process L m.kernel r.process = .ok (code, m'.kernel) ∧
      ((code ≠ 0 ∧ m'.ram = m.ram) ∨ (code = 0 ∧ ∃ d, m.kernel.paging.page_directory_used d = false ∧
        load L m.fs m'.kernel.paging (L.dir d) r m.ram = some m'.ram ∧
        ∃ p, Created L m.kernel m'.kernel r.process p d)) := by
  unfold create_process at h
  cases hcreate : process_create_user_process L m.kernel r.process with
  | error t =>
    rw [hcreate] at h
    exact absurd h (by simp)
  | ok result =>
    obtain ⟨code', kernel⟩ := result
    rw [hcreate] at h
    dsimp only at h
    by_cases hcode : code' = 0
    · rw [if_pos hcode] at h
      obtain ⟨⟨d, paging⟩, hd, hload⟩ := Option.bind_eq_some_iff.mp h
      obtain ⟨ram, hram, heq⟩ := Option.map_eq_some_iff.mp hload
      obtain ⟨rfl, rfl⟩ := Prod.mk.inj heq
      rcases create_cases hcreate with ⟨hne, -⟩ | ⟨h3, -⟩ | ⟨-, p, d', hc⟩
      · exact absurd hcode hne
      · rw [h3] at hcode
        exact absurd hcode (by decide)
      · rcases create_new_page_directory_cases m.kernel.paging with ⟨d'', hfirst, hnew⟩ | ⟨-, hnew⟩
        · rw [hnew] at hd
          obtain ⟨rfl, -⟩ := Prod.mk.inj (Option.some.inj hd)
          obtain rfl : d'' = d' := hfirst.unique hc.dir
          exact ⟨rfl, rfl, .inr ⟨hcode, d'', hfirst.1, hram, p, hc⟩⟩
        · rw [hnew] at hd
          exact absurd hd (by simp)
    · rw [if_neg hcode] at h
      obtain ⟨rfl, rfl⟩ := Prod.mk.inj (Option.some.inj h)
      exact ⟨rfl, rfl, .inl ⟨hcode, rfl⟩⟩

/-- The program's bytes are stored through the new directory. -/
theorem load_pokes {fs : Fs} {paging : Paging} {a : UInt32} {ram ram' : Ram}
    (h : load L fs paging a r ram = some ram') : ∃ ws, pokes (space L paging a) ram ws = some ram' := by
  obtain ⟨result, -, hpokes⟩ := Option.bind_eq_some_iff.mp h
  exact ⟨_, hpokes⟩

theorem create_process_fs (h : create_process L m r = some (code, m')) : m'.fs = m.fs := by
  rw [(create_process_cases h).1]

/-- The codes of process creation. -/
theorem create_codes {s s' : Kernel} {request : ProcessRequest}
    (h : process_create_user_process L s request = .ok (code, s')) :
    code = 0 ∨ code = 1 ∨ code = 2 ∨ code = 3 := by
  rw [create_eq] at h
  split_ifs at h with hcount hbuf hmem
  · exact .inr (.inl (Prod.mk.inj (Except.ok.inj h)).1.symm)
  · exact .inr (.inr (.inl (Prod.mk.inj (Except.ok.inj h)).1.symm))
  · exact .inr (.inr (.inr (Prod.mk.inj (Except.ok.inj h)).1.symm))
  · rcases create_admitted_cases (lt_base hbuf) h with ⟨h3, -⟩ | ⟨h0, -⟩
    · exact .inr (.inr (.inr h3))
    · exact .inl h0

/-! ## Loading -/

/-- How many bytes of the clusters of a file are loaded. -/
def loadedBytes (r : UserRequest) (bytes : List UInt8) : ℕ :=
  min (readRoom r.buffer_size) (clustersFor bytes.length * 2048)

theorem storesAt_copyChain {d : Disk} {l : List ℕ} {n a : ℕ} {f : Buffer → Option Buffer}
    (hf : ∀ buf, f buf = some (copyChain d l n 0 buf)) : storesAt f a = true ↔ a < n * 2048 := by
  unfold storesAt
  rw [hf, hf]
  simp only [copyChain, Nat.zero_le, true_and, Nat.sub_zero, beq_iff_eq]
  by_cases ha : a < n * 2048
  · simp [ha]
  · simp [ha]

theorem readRoom_le (size : UInt32) : readRoom size ≤ 2 ^ 32 := by
  unfold readRoom
  omega

/-- What is loaded of a file, in clusters. -/
theorem loadedBytes_eq {bytes : List UInt8} {l : List ℕ} (hl : l.length = clustersFor bytes.length) :
    loadedBytes r bytes = copied (r.driver 0) l * 2048 := by
  rw [loadedBytes, readRoom, ← hl, Nat.mul_min_mul_right]
  rfl

/-- What a call of `read` makes of the memory, when there is nothing to read. -/
theorem fileInto_of_size_zero {fs : Fs} (hname : r.name ≠ 0) (h0 : r.buffer_size = 0) (buf : Buffer) :
    fileInto fs r buf = some buf := by
  have hread : read fs (r.driver buf) = .ok (1, buf) := by
    have hunnamed : ¬ sameBytes (r.driver buf).name 0 = true := sameBytes_iff.not.mpr hname
    have hempty : (r.driver buf).buffer_size = 0 := h0
    rw [read, if_neg hunnamed, if_pos hempty]
    rfl
  unfold fileInto
  rw [hread]

/-- What `read` makes of the memory when the file is there: the same bytes are stored whatever was there
before. -/
theorem fileInto_present {fs : Fs} {bytes : List UInt8} (hs : Inv fs)
    (hfile : Present fs (r.driver 0).key (.file bytes)) :
    ∃ l, (∀ buf, fileInto fs r buf = some (copyChain fs.disk l (copied (r.driver 0) l) 0 buf)) ∧
      l.length = clustersFor bytes.length ∧ ∀ a < bytes.length, some (content fs.disk l a) = bytes[a]? := by
  obtain ⟨slot, hheld, hname, hext, hattr, l, hchain, hbytes⟩ := hfile
  have hnamed : (tableAt fs r.parent_cluster_number.toNat slot).name ≠ 0 := (hs.sound hheld).choose_spec.name
  have hf : ∀ buf, NamesFile fs (r.driver buf) slot l := fun buf =>
    { held := hheld, name := hname, ext := hext, hasName := fun h0 => hnamed (hname.trans h0), file := hattr,
      chain := hchain }
  refine ⟨l, fun buf => ?_, ?_, fun a ha => ?_⟩
  · by_cases h0 : r.buffer_size = 0
    · have hnone : copied (r.driver 0) l = 0 := by
        have hzero : (r.driver 0).buffer_size = 0 := h0
        rw [copied, hzero]
        exact Nat.zero_min _
      rw [hnone, copyChain_zero, fileInto_of_size_zero (hf 0).hasName h0]
    · have hread := read_named hs.wellFormed (hf buf).hasName h0 (hf buf).toNames
        ((hf buf).ownChain hs.wellFormed)
      unfold fileInto
      rw [hread]
      rfl
  · have hown := ((hf 0).ownChain hs.wellFormed).length_file hattr
    rw [hown, hbytes, firstBytes, List.length_map, List.length_range]
    rfl
  · rw [hbytes, firstBytes, List.length_map, List.length_range] at ha
    rw [hbytes]
    simp [firstBytes, ha]

/-- Offsets below the size of the address space do not meet. -/
theorem offset_injective {v : UInt32} {a b : ℕ} (ha : a < 2 ^ 32) (hb : b < 2 ^ 32)
    (h : v + UInt32.ofNat a = v + UInt32.ofNat b) : a = b := by
  have hval := congrArg UInt32.toNat ((UInt32.add_right_inj v).mp h)
  rwa [UInt32.toNat_ofNat_of_lt' ha, UInt32.toNat_ofNat_of_lt' hb] at hval

section

variable {fs : Fs} {d : Disk} {l : List ℕ} {n a : ℕ} {paging : Paging} {page_dir : UInt32} {ram ram' : Ram}

/-- What is stored is the clusters copied, from `buf` on. -/
theorem bufferStores_chain (hfile : ∀ buf, fileInto fs r buf = some (copyChain d l n 0 buf)) {buf : Buffer}
    {w : UInt32 × UInt8} (hn : n * 2048 ≤ readRoom r.buffer_size) :
    w ∈ bufferStores (fileInto fs r) r.buf (copyChain d l n 0 buf) (readRoom r.buffer_size) ↔
      ∃ a < n * 2048, w = (r.buf + UInt32.ofNat a, content d l a) := by
  have hbyte : ∀ b < n * 2048, copyChain d l n 0 buf b = content d l b := by
    intro b hb
    rw [copyChain, if_pos ⟨Nat.zero_le b, hb⟩, Nat.sub_zero]
  simp only [bufferStores, List.mem_map, List.mem_filter, List.mem_range, storesAt_copyChain hfile]
  constructor
  · rintro ⟨a, ⟨-, ha⟩, rfl⟩
    exact ⟨a, ha, by rw [hbyte a ha]⟩
  · rintro ⟨a, ha, rfl⟩
    exact ⟨a, ⟨lt_of_lt_of_le ha hn, ha⟩, by rw [hbyte a ha]⟩

/-- **Loading stores the clusters copied**, from `buf` on, and nothing else. -/
theorem load_chain (hfile : ∀ buf, fileInto fs r buf = some (copyChain d l n 0 buf))
    (hn : n * 2048 ≤ readRoom r.buffer_size) (hpaging : PInv paging)
    (h : load L fs paging page_dir r ram = some ram') (ha : a < 2 ^ 32) :
    view (space L paging page_dir) ram' (r.buf + UInt32.ofNat a) =
      if a < n * 2048 then some (content d l a)
      else view (space L paging page_dir) ram (r.buf + UInt32.ofNat a) := by
  have hroom := readRoom_le r.buffer_size
  obtain ⟨result, hresult, hpokes⟩ := Option.bind_eq_some_iff.mp h
  rw [hfile] at hresult
  obtain rfl := Option.some.inj hresult
  rw [view_pokes (hpaging.space_oneToOne _) hpokes]
  split_ifs with hlt
  · apply putAll_of_mem ((bufferStores_chain hfile hn).mpr ⟨a, hlt, rfl⟩)
    intro b' hb'
    obtain ⟨b, hb, heq⟩ := (bufferStores_chain hfile hn).mp hb'
    obtain ⟨haddr, rfl⟩ := Prod.mk.inj heq
    rw [offset_injective ha (by omega) haddr]
  · apply putAll_of_not_mem
    intro w hw heq
    obtain ⟨b, hb, rfl⟩ := (bufferStores_chain hfile hn).mp hw
    rw [← offset_injective (by omega) ha heq] at hlt
    exact hlt hb

/-- **What loading a file does to the memory.** -/
theorem load_file {bytes : List UInt8} (hs : Inv fs) (hfile : Present fs (r.driver 0).key (.file bytes))
    (hpaging : PInv paging) (h : load L fs paging page_dir r ram = some ram') (ha : a < bytes.length)
    (hlt : a < 2 ^ 32) : view (space L paging page_dir) ram' (r.buf + UInt32.ofNat a) =
      if a < loadedBytes r bytes then bytes[a]?
      else view (space L paging page_dir) ram (r.buf + UInt32.ofNat a) := by
  obtain ⟨l, hinto, hlength, hbytes⟩ := fileInto_present hs hfile
  have hn : copied (r.driver 0) l * 2048 ≤ readRoom r.buffer_size := by
    rw [← loadedBytes_eq hlength]
    exact min_le_left _ _
  rw [load_chain hinto hn hpaging h hlt, loadedBytes_eq hlength, hbytes a ha]

/-- Loading succeeds when the clusters copied are mapped. -/
theorem load_returns {bytes : List UInt8} (paging : Paging) (page_dir : UInt32) (hs : Inv fs)
    (hfile : Present fs (r.driver 0).key (.file bytes))
    (hmapped : ∀ a < loadedBytes r bytes, (space L paging page_dir (r.buf + UInt32.ofNat a)).isSome = true)
    (ram : Ram) : ∃ ram', load L fs paging page_dir r ram = some ram' := by
  obtain ⟨l, hinto, hlength, -⟩ := fileInto_present hs hfile
  unfold load
  dsimp only
  rw [hinto, Option.bind_some]
  apply pokes_isSome
  intro w hw
  have hn : copied (r.driver 0) l * 2048 ≤ readRoom r.buffer_size := by
    rw [← loadedBytes_eq hlength]
    exact min_le_left _ _
  obtain ⟨a, ha, rfl⟩ := (bufferStores_chain hinto hn).mp hw
  exact hmapped a (loadedBytes_eq hlength ▸ ha)

end

/-! ## The start of a program -/

/-- Process `p` is about to start at the first of these bytes, with an empty stack. -/
structure StartsAs (L : Linkage) (m : Machine) (p : Fin 16) (buf : UInt32) (bytes : List UInt8) : Prop where
  live : m.kernel.list_of_process p = true
  eip : (m.kernel.process_list p).context.eip = buf
  esp : (m.kernel.process_list p).context.cpu.esp = KERNEL_VIRTUAL_ADDRESS_BASE - 4
  memory : ∀ a < bytes.length, m.view L p (buf + UInt32.ofNat a) = bytes[a]?

theorem StartsAs.congr {buf : UInt32} {bytes : List UInt8} (h : StartsAs L m p buf bytes)
    (hlive : m'.kernel.list_of_process p = true) (hview : m'.view L p = m.view L p)
    (hcontext : (m'.kernel.process_list p).context = (m.kernel.process_list p).context) :
    StartsAs L m' p buf bytes where
  live := hlive
  eip := hcontext ▸ h.eip
  esp := hcontext ▸ h.esp
  memory a ha := by rw [hview, h.memory a ha]

/-- The first bytes of what a process starts as. -/
theorem StartsAs.take {buf : UInt32} {bytes : List UInt8} {n k : ℕ} (h : StartsAs L m p buf (bytes.take n))
    (hk : min k bytes.length ≤ n) : StartsAs L m p buf (bytes.take k) where
  live := h.live
  eip := h.eip
  esp := h.esp
  memory a ha := by
    rw [List.length_take] at ha
    have hn : a < n := lt_of_lt_of_le ha hk
    rw [h.memory a (by rw [List.length_take]; omega), List.getElem?_take_of_lt hn,
      List.getElem?_take_of_lt (by omega)]

/-- The memory of a new process is that of the new directory. -/
theorem Created.view {d : Fin 32} (h : Created L m.kernel m₁.kernel r.process p d) :
    m₁.view L p = view (space L m₁.kernel.paging (L.dir d)) m₁.ram := by
  rw [Machine.view, Kernel.space, h.dirOf_self]

/-- **A new process starts as its file**, as far as this is loaded. -/
theorem create_starts (hs : KInv L m.kernel) (h : create_process L m r = some (0, m₁)) :
    ∃ p d, Created L m.kernel m₁.kernel r.process p d ∧
      ∀ {bytes}, Inv m.fs → Present m.fs (r.driver 0).key (.file bytes) →
        StartsAs L m₁ p r.buf (bytes.take (loadedBytes r bytes)) := by
  obtain ⟨-, hkernel, ⟨hne, -⟩ | ⟨-, d, -, hload, p, hc⟩⟩ := create_process_cases h
  · exact absurd rfl hne
  refine ⟨p, d, hc, fun {bytes} hinv hfile => ⟨hc.list_self, ?_, ?_, fun a ha => ?_⟩⟩
  · rw [hc.pcb_self]
    rfl
  · rw [hc.pcb_self]
    rfl
  · rw [List.length_take, lt_min_iff] at ha
    have hlt : a < 2 ^ 32 := by
      have hroom := readRoom_le r.buffer_size
      have hle : loadedBytes r bytes ≤ readRoom r.buffer_size := min_le_left _ _
      omega
    rw [hc.view, load_file hinv hfile (hc.kinv hs).paging hload ha.2 hlt, if_pos ha.1,
      List.getElem?_take_of_lt ha.1]

/-- Where nothing is loaded the memory of a new process is what the page frame held. -/
theorem create_leaves {bytes : List UInt8} {a : ℕ} (hs : KInv L m.kernel) (hinv : Inv m.fs)
    (hfile : Present m.fs (r.driver 0).key (.file bytes)) (h : create_process L m r = some (0, m₁))
    (hp : m.kernel.list_of_process p = false ∧ m₁.kernel.list_of_process p = true) (ha : a < bytes.length)
    (hlt : a < 2 ^ 32) (hbehind : loadedBytes r bytes ≤ a) :
    m₁.view L p (r.buf + UInt32.ofNat a) = view (m₁.kernel.space L p) m.ram (r.buf + UInt32.ofNat a) := by
  obtain ⟨-, hkernel, ⟨hne, -⟩ | ⟨-, d, -, hload, q, hc⟩⟩ := create_process_cases h
  · exact absurd rfl hne
  obtain rfl := hc.newborn_iff.mp hp
  rw [hc.view, load_file hinv hfile (hc.kinv hs).paging hload ha hlt, if_neg (not_lt.mpr hbehind), Kernel.space,
    hc.dirOf_self]

/-! ## Creation goes through -/

/-- Behind its checks creation succeeds. -/
theorem create_admits {s : Kernel} {request : ProcessRequest} (hcount : s.active_process_count.toNat < 16)
    (hbuf : request.buf < KERNEL_VIRTUAL_ADDRESS_BASE)
    (hmem : paging_allocate_check s.paging (page_frame_count_needed request.buffer_size) = true)
    (hneeded : page_frame_count_needed request.buffer_size ≤ 8) (hslot : ∃ p, s.list_of_process p = false)
    (hdir : ∃ d, s.paging.page_directory_used d = false) :
    ∃ s', process_create_user_process L s request = .ok (0, s') := by
  have hadmitted : process_create_user_process L s request =
      create_admitted L s request (process_list_get_inactive_index s) := by
    rw [create_eq, if_neg (not_le.mpr hcount), if_neg (UInt32.not_le.mpr hbuf), hmem,
      if_neg (by simpa using hneeded)]
  obtain ⟨⟨code, s'⟩, hreturns⟩ := create_admitted_returns L s request hslot
  rcases create_admitted_cases (lt_base (UInt32.not_le.mpr hbuf)) hreturns with ⟨-, p, hc⟩ | ⟨rfl, -⟩
  · obtain ⟨d, hd⟩ := hdir
    rw [hc.dirs d] at hd
    exact absurd hd (by decide)
  · exact ⟨s', hadmitted.trans hreturns⟩

theorem pageIndex_add {v : UInt32} {a : ℕ} (h : v.toNat % 2 ^ 22 + a < 2 ^ 22) :
    pageIndex (v + UInt32.ofNat a) = pageIndex v := by
  have hv := v.toNat_lt
  have hadd : (v + UInt32.ofNat a).toNat = v.toNat + a := by
    have ha : a < 2 ^ 32 := by omega
    rw [UInt32.toNat_add, UInt32.toNat_ofNat_of_lt' ha, Nat.mod_eq_of_lt (by omega)]
  unfold pageIndex
  rw [hadd]
  congr 1
  omega

/-- The first page of a new process is mapped, when a frame was free. -/
theorem Created.mapped {s s' : Kernel} {request : ProcessRequest} {d : Fin 32} (h : Created L s s' request p d)
    (hs : KInv L s) (hfree : freeFrames s.paging ≠ 0) {v : UInt32}
    (hv : pageIndex v = pageIndex request.buf) :
    (space L s'.paging (L.dir d) v).isSome = true := by
  have hentry : ∃ f, s'.paging.page_directory_list d (pageIndex request.buf) = userEntry f := by
    rcases h.table hs with ⟨-, f, g, -, -, -, ht⟩ | ⟨-, f, -, ht⟩ | ⟨hnone, -⟩
    · rw [ht, Function.update_apply]
      split_ifs
      · exact ⟨g, rfl⟩
      · exact ⟨f, Function.update_self _ _ _⟩
    · rw [ht]
      exact ⟨f, Function.update_self _ _ _⟩
    · exact absurd hnone hfree
  obtain ⟨f, hf⟩ := hentry
  rw [space_dir, translate, hv, hf]
  rfl

/-- **Process creation goes through**, when its checks pass, a frame is free, and the clusters copied are on
the first page. -/
theorem create_process_returns {bytes : List UInt8} {kernel : Kernel} (m : Machine) (r : UserRequest)
    (hs : KInv L m.kernel) (hinv : Inv m.fs) (hfile : Present m.fs (r.driver 0).key (.file bytes))
    (hfree : freeFrames m.kernel.paging ≠ 0) (hfits : r.buf.toNat % 2 ^ 22 + loadedBytes r bytes ≤ 2 ^ 22)
    (hcreate : process_create_user_process L m.kernel r.process = .ok (0, kernel)) :
    ∃ m₁, create_process L m r = some (0, m₁) := by
  rcases create_cases hcreate with ⟨hne, -⟩ | ⟨h3, -⟩ | ⟨-, p, d, hc⟩
  · exact absurd rfl hne
  · exact absurd h3 (by decide)
  have hnew : paging_create_new_page_directory m.kernel.paging =
    some (d, takeDirectory m.kernel.paging d) := by
    rcases create_new_page_directory_cases m.kernel.paging with ⟨d', hfirst, hnew⟩ | ⟨hall, -⟩
    · obtain rfl : d' = d := hfirst.unique hc.dir
      exact hnew
    · have hd : m.kernel.paging.page_directory_used d = false := hc.dir.1
      rw [hall d] at hd
      exact absurd hd (by decide)
  obtain ⟨ram, hload⟩ := load_returns kernel.paging (L.dir d) hinv hfile
    (fun a ha => hc.mapped hs hfree (pageIndex_add (by omega))) m.ram
  refine ⟨{ m with kernel := kernel, ram := ram }, ?_⟩
  rw [create_process, hcreate]
  dsimp only
  rw [if_pos rfl, hnew, Option.bind_some, hload, Option.map_some]

/-! ## The start -/

theorem initial_fs (L : Linkage) (d : Disk) (ram : Ram) (screen : Screen.Terminal) :
    (Machine.initial L d ram screen).fs = mount d := by
  rw [Machine.initial]

/-- The process table is empty at the start: the checks pass for the shell. -/
theorem create_shell (L : Linkage) :
    ∃ s', process_create_user_process L (.initial L) shellreq.process = .ok (0, s') := by
  have hneeded : page_frame_count_needed shellreq.process.buffer_size ≤ 8 := by decide
  refine create_admits (by show (0 : UInt32).toNat < 16; decide) (by decide) ?_ hneeded ⟨0, rfl⟩ ⟨0, rfl⟩
  show decide ((31 : UInt32).toNat ≥ _) = true
  decide

/-- The room for the shell is on its first page. -/
theorem shell_fits (bytes : List UInt8) :
    shellreq.buf.toNat % 2 ^ 22 + loadedBytes shellreq bytes ≤ 2 ^ 22 := by
  have hbuf : shellreq.buf.toNat = 0 := rfl
  have hroom : readRoom shellreq.buffer_size = 1048576 := by decide
  have hle : loadedBytes shellreq bytes ≤ readRoom shellreq.buffer_size := min_le_left _ _
  omega

/-- **The start goes through**, with any file for the shell. -/
theorem kernel_setup_returns {d : Disk} {bytes : List UInt8} (hinv : Inv (mount d))
    (hfile : Present (mount d) (shellreq.driver 0).key (.file bytes)) (ram : Ram)
    (screen : Screen.Terminal) : ∃ m₀, kernel_setup L 16 d ram screen = some m₀ := by
  obtain ⟨s', hshell⟩ := create_shell L
  have hfree : freeFrames (Machine.initial L d ram screen).kernel.paging ≠ 0 := by
    have hbudget := budget_initial L
    show freeFrames (.initial L) ≠ 0
    rw [← hbudget.count]
    show (31 : UInt32).toNat ≠ 0
    decide
  obtain ⟨m₁, hcreate⟩ := create_process_returns (.initial L d ram screen) shellreq (kinv_initial L)
    (by rwa [initial_fs]) (by rwa [initial_fs]) hfree (shell_fits bytes) hshell
  obtain ⟨-, -, ⟨hne, -⟩ | ⟨-, d, -, -, p, hc⟩⟩ := create_process_cases hcreate
  · exact absurd rfl hne
  obtain ⟨reply, hswitch⟩ := switch_returns ⟨p, hc.list_self⟩
  refine ⟨{ m₁ with kernel := reply.2.1 }, ?_⟩
  rw [kernel_setup, hcreate, Option.bind_some]
  dsimp only
  rw [hswitch]

/-- The first switch is a tick that saves nothing. -/
theorem first_switch {s s' : Kernel} {next : Fin 16} {cpu' : Cpu} (cpu : Cpu)
    (hnone : ∀ i, (s.process_list i).state ≠ RUNNING)
    (h : scheduler_switch_to_next_process fuel s = .ok (next, s', cpu')) :
    KStep L s (.tick cpu next cpu') s' := by
  have hpointer : process_get_current_running_pcb_pointer s = none := by
    unfold process_get_current_running_pcb_pointer
    apply Fin.find?_eq_none_iff.mpr
    exact fun i => beq_eq_false_iff_ne.mpr (hnone i)
  refine ⟨fuel, ?_⟩
  unfold timer_interrupt scheduler_save_context_to_current_running_pcb
  rw [hpointer]
  exact h

/-- **The start** is the creation of the shell and a tick. -/
theorem kernel_setup_cases {d : Disk} {ram : Ram} {screen : Screen.Terminal}
    (h : kernel_setup L fuel d ram screen = some m) :
    ∃ code m₁, create_process L (.initial L d ram screen) shellreq = some (code, m₁) ∧
      m = { m₁ with kernel := m.kernel } ∧
      ∀ cpu, ∃ next cpu', KStep L m₁.kernel (.tick cpu next cpu') m.kernel := by
  obtain ⟨⟨code, m₁⟩, hcreate, h⟩ := Option.bind_eq_some_iff.mp h
  have hready : ∀ i, ((Machine.initial L d ram screen).kernel.process_list i).state ≠ RUNNING :=
    fun i h => PROCESS_STATE.noConfusion h
  have hnone : ∀ i, (m₁.kernel.process_list i).state ≠ RUNNING := by
    intro i
    rcases create_cases (create_process_cases hcreate).2.1 with ⟨-, heq⟩ | ⟨-, p, hc⟩ | ⟨-, p, dir, hc⟩
    · rw [heq]
      exact hready i
    · rw [hc.eq, claim_state]
      exact hready i
    · intro hrun
      rw [hc.pcb_of_ne (hc.ne_of_running hrun)] at hrun
      exact hready i hrun
  cases hswitch : scheduler_switch_to_next_process fuel m₁.kernel with
  | error t =>
    simp only [hswitch] at h
    exact absurd h (by simp)
  | ok result =>
    simp only [hswitch] at h
    obtain rfl := Option.some.inj h
    exact ⟨code, m₁, hcreate, rfl, fun cpu => ⟨result.1, result.2.2, first_switch cpu hnone hswitch⟩⟩

/-- The file system of the machine is the one of its drive. -/
theorem kernel_setup_fs {d : Disk} {ram : Ram} {screen : Screen.Terminal}
    (h : kernel_setup L fuel d ram screen = some m) : m.fs = mount d := by
  obtain ⟨code, m₁, hcreate, hm, -⟩ := kernel_setup_cases h
  rw [hm, ← initial_fs L d ram screen, ← create_process_fs hcreate]

/-- **The shell starts as its file**, and runs. -/
theorem shell_starts {d : Disk} {bytes : List UInt8} {ram : Ram} {screen : Screen.Terminal}
    (hinv : Inv (mount d)) (hfile : Present (mount d) (shellreq.driver 0).key (.file bytes))
    (h : kernel_setup L fuel d ram screen = some m₀) :
    m₀.Runs 0 ∧ StartsAs L m₀ 0 0 (bytes.take (loadedBytes shellreq bytes)) := by
  obtain ⟨code, m₁, hcreate, hm₀, htick⟩ := kernel_setup_cases h
  obtain ⟨s', hshell⟩ := create_shell L
  obtain rfl : code = 0 := by
    have hkernel := (create_process_cases hcreate).2.1
    exact (Prod.mk.inj (Except.ok.inj (hkernel.symm.trans hshell))).1
  obtain ⟨p, dir, hc, hstarts⟩ := create_starts (kinv_initial L) hcreate
  obtain rfl : p = 0 := hc.slot.unique ⟨rfl, fun i hi => absurd hi (Fin.not_lt_zero i)⟩
  have hready : ∀ i, (m₁.kernel.process_list i).state ≠ RUNNING := by
    intro i hrun
    rw [hc.pcb_of_ne (hc.ne_of_running hrun)] at hrun
    exact PROCESS_STATE.noConfusion hrun
  have hs₁ : KInv L m₁.kernel := hc.kinv (kinv_initial L)
  obtain ⟨next, cpu', hkernel⟩ := htick (userCpu 0)
  have hstep := hkernel
  obtain ⟨fuel', hfuel⟩ := hkernel
  have ht := tick_cases hfuel
  have hnext : next = 0 := by
    by_contra hne
    have hlive : m₁.kernel.list_of_process next = true := ht.chosen.1
    rw [hc.list_of_ne hne] at hlive
    exact Bool.noConfusion hlive
  have hlive' : m₀.kernel.list_of_process 0 = true := by
    rw [ht.list]
    exact hc.list_self
  refine ⟨(ht.running_iff hs₁).mpr hnext.symm, (hstarts ?_ ?_).congr hlive' ?_ ?_⟩
  · rwa [initial_fs]
  · rwa [initial_fs]
  · rw [Machine.view, Machine.view, space_step hs₁ hstep hc.list_self hlive', hm₀]
  · exact (ht.context 0).trans (savedContext_of_not_running hs₁ (hready 0))

theorem shell_named : Inserter.scan_name (ascii "shell") ≠ 0 := fun h => absurd (congrFun h 0) (by decide)

theorem shell_key (filesize : UInt32) (file_buffer : Buffer) :
    (Inserter.request (ascii "shell") 2 filesize file_buffer).key = (shellreq.driver 0).key := by
  have hname : Inserter.scan_name (ascii "shell") = shellreq.name := by decide
  rw [FAT32DriverRequest.key, Inserter.request, hname]
  rfl

/-- What is left for others when the shell has started. -/
theorem room_after_start {d : Disk} {ram : Ram} {screen : Screen.Terminal}
    (h : kernel_setup L fuel d ram screen = some m₀) : m₀.kernel.active_process_count = 1 ∧
      m₀.kernel.list_of_process 1 = false ∧ m₀.kernel.paging.page_directory_used 1 = false ∧
      freeFrames m₀.kernel.paging = 29 ∧ m₀.kernel.paging.free_page_frame_count.toNat = 29 := by
  obtain ⟨code, m₁, hcreate, -, htick⟩ := kernel_setup_cases h
  obtain ⟨s', hshell⟩ := create_shell L
  have hkernel : process_create_user_process L (.initial L) shellreq.process = .ok (code, m₁.kernel) :=
    (create_process_cases hcreate).2.1
  obtain ⟨rfl, rfl⟩ := Prod.mk.inj (Except.ok.inj (hkernel.symm.trans hshell))
  rcases create_cases hshell with ⟨hne, -⟩ | ⟨h3, -⟩ | ⟨-, p, dir, hc⟩
  · exact absurd rfl hne
  · exact absurd h3 (by decide)
  obtain rfl : p = 0 := hc.slot.unique ⟨rfl, fun i hi => absurd hi (Fin.not_lt_zero i)⟩
  obtain rfl : dir = 0 := hc.dir.unique ⟨rfl, fun i hi => absurd hi (Fin.not_lt_zero i)⟩
  have hfree : freeFrames (Kernel.initial L).paging = 31 := (budget_initial L).count.symm
  have hcounts := hc.counts (kinv_initial L) (budget_initial L)
  rw [hfree] at hcounts
  obtain ⟨next, cpu', fuel', hfuel⟩ := htick (userCpu 0)
  have ht := tick_cases hfuel
  rw [ht.count, ht.list, ht.paging, use_page_directory_used, use_free_page_frame_count, freeFrames,
    use_page_frame_map]
  refine ⟨hc.count, ?_, ?_, hcounts.1, hcounts.2⟩
  · exact hc.list_of_ne (by decide)
  · rw [hc.used (kinv_initial L)]
    rfl

/-! ## A machine to run -/

/-- A shell that begins with a request for itself. -/
def firstShell : Buffer := fun a => if h : a < 23 then requestLayout.encode shellreq ⟨a, h⟩ else 0

/-- The shell is inserted into a new image, and the machine starts. -/
theorem some_start : ∃ s m₀, Run CycleStep (mount 0)
      [.cycle, .call (.write (Inserter.request (ascii "shell") 2 23 firstShell), ⟨0, firstShell⟩)] s ∧
    kernel_setup someLinkage 16 s.disk (fun _ => 0) (Screen.start fun _ => 0) = some m₀ ∧ m₀.Runs 0 ∧
    StartsAs someLinkage m₀ 0 0 (firstBytes 23 firstShell) ∧
    ∃ c, tableAt m₀.fs 2 =
      Function.update (tableAt (boot 0) 2) 1 (fileEntry (Inserter.scan_name (ascii "shell")) 0 23 c) := by
  obtain ⟨hlegal, d', hmain, hroot⟩ :=
    first_insert 23 firstShell shell_named ⟨by decide, by decide⟩ (by decide)
  obtain ⟨M, hinv, hM, hfile⟩ := inserted_tracks is_empty_storage_zero .nil hlegal shell_named
    (by decide) hmain
  rw [shell_key] at hfile
  obtain ⟨s, hrun, rfl⟩ := insert_run hmain hlegal shell_named
  have hpresent := (hM _ _).mp hfile
  obtain ⟨m₀, hstart⟩ :=
    kernel_setup_returns (L := someLinkage) hinv hpresent (fun _ => 0) (Screen.start fun _ => 0)
  obtain ⟨hruns, hshell⟩ := shell_starts hinv hpresent hstart
  refine ⟨s, m₀, hrun, hstart, hruns, ?_, ?_⟩
  · rwa [List.take_of_length_le (by decide)] at hshell
  · rwa [kernel_setup_fs hstart]

end KeropOS
