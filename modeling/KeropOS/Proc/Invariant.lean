import KeropOS.Proc.Spec
import KeropOS.Lib.Transition

/-!
# The invariants of paging and of the process table

* `PInv`: the page directories and the frames they map; **`PInv.grows`**, `PInv.takeDirectory`,
  `PInv.dropDirectory`;
* `KInv`: control blocks, their directories, and the one on the CPU;
* **`kinv_step`**, `kinv_of_run`: both hold in every state of every run.
-/

namespace KeropOS

open PROCESS_STATE RoundRobin Transition

/-! ## Paging -/

namespace PageDirectoryEntry

/-- The entry maps a page. -/
def IsPresent (e : PageDirectoryEntry) : Prop := e.flag.present_bit = true

/-- The entry maps a page for user code. -/
def IsUser (e : PageDirectoryEntry) : Prop := e.flag.present_bit = true ∧ e.flag.user_bit = true

end PageDirectoryEntry

theorem not_isPresent_empty : ¬ ({} : PageDirectoryEntry).IsPresent := by
  rw [PageDirectoryEntry.IsPresent]
  decide

theorem userEntry_injective {f g : Fin 32} (h : userEntry f = userEntry g) : f = g := by
  have := congrArg (fun e => e.lower_address.val) h
  exact Fin.ext this

theorem userEntry_ne_kernelEntry (f : Fin 32) : userEntry f ≠ kernelEntry := fun h => by
  have := congrArg (fun e => e.flag.user_bit) h
  exact absurd this (by simp [userEntry, kernelEntry])

/-- The page directories: those in use have the kernel's entry, the others are empty, and every
other page has a frame of its own. -/
structure PInv (p : Paging) : Prop where
  frame_zero : p.page_frame_map 0 = true
  kernel : ∀ {k}, p.page_directory_used k = true → p.page_directory_list k 0x300 = kernelEntry
  clean : ∀ {k}, p.page_directory_used k = false → ∀ j, p.page_directory_list k j = {}
  user : ∀ {k j}, j ≠ 0x300 → (p.page_directory_list k j).IsPresent →
    ∃ f, f ≠ 0 ∧ p.page_frame_map f = true ∧ p.page_directory_list k j = userEntry f
  apart : ∀ {k k' j j' f}, p.page_directory_list k j = userEntry f →
    p.page_directory_list k' j' = userEntry f → k = k' ∧ j = j'

/-- Frames are taken for pages of directory `d` only. -/
structure Grows (d : Fin 32) (p p' : Paging) : Prop where
  used : p'.page_directory_used = p.page_directory_used
  mono : ∀ f, p.page_frame_map f = true → p'.page_frame_map f = true
  other : ∀ k, k ≠ d → p'.page_directory_list k = p.page_directory_list k
  entry : ∀ j, p'.page_directory_list d j = p.page_directory_list d j ∨
    ∃ f, f ≠ 0 ∧ p.page_frame_map f = false ∧ p'.page_frame_map f = true ∧
      p'.page_directory_list d j = userEntry f
  kernel : p'.page_directory_list d 0x300 = p.page_directory_list d 0x300
  apart : ∀ j j' f, p.page_frame_map f = false → p'.page_directory_list d j = userEntry f →
    p'.page_directory_list d j' = userEntry f → j = j'

/-- What the invariant says of one entry of a used directory or another. -/
theorem PInv.frame_of_userEntry {p : Paging} (h : PInv p) {k : Fin 32} {j : Fin 1024} {f : Fin 32}
    (he : p.page_directory_list k j = userEntry f) : j ≠ 0x300 ∧ f ≠ 0 ∧ p.page_frame_map f = true := by
  have hpres : (p.page_directory_list k j).IsPresent := by rw [he]; rfl
  have hj : j ≠ 0x300 := by
    rintro rfl
    rcases hu : p.page_directory_used k with _ | _
    · rw [h.clean hu] at hpres
      exact not_isPresent_empty hpres
    · rw [h.kernel hu] at he
      exact userEntry_ne_kernelEntry f he.symm
  obtain ⟨g, hg0, hg, hge⟩ := h.user hj hpres
  obtain rfl := userEntry_injective (he.symm.trans hge)
  exact ⟨hj, hg0, hg⟩

theorem Grows.trans {d : Fin 32} {p q r : Paging} (h : Grows d p q) (h' : Grows d q r) :
    Grows d p r where
  used := h'.used.trans h.used
  mono f hf := h'.mono f (h.mono f hf)
  other k hk := (h'.other k hk).trans (h.other k hk)
  entry j := by
    rcases h'.entry j with he | ⟨f, h0, hf, hf', he⟩
    · rw [he]
      exact (h.entry j).imp id fun ⟨f, h0, hf, hf', he⟩ => ⟨f, h0, hf, h'.mono f hf', he⟩
    · refine .inr ⟨f, h0, ?_, hf', he⟩
      rcases hpf : p.page_frame_map f with _ | _
      · rfl
      · rw [h.mono f hpf] at hf
        exact absurd hf (by simp)
  kernel := h'.kernel.trans h.kernel
  apart j j' f hf he he' := by
    rcases hq : q.page_frame_map f with _ | _
    · exact h'.apart j j' f hq he he'
    · -- the frame was taken in the first step, and the second left both entries alone
      have hback : ∀ i, r.page_directory_list d i = userEntry f → q.page_directory_list d i = userEntry f := by
        intro i hi
        rcases h'.entry i with he | ⟨g, -, hg, -, he⟩
        · rw [← he, hi]
        · obtain rfl := userEntry_injective (hi.symm.trans he)
          rw [hq] at hg
          exact absurd hg (by simp)
      exact h.apart j j' f hf (hback j he) (hback j' he')

/-- **Taking frames keeps the invariant.** -/
theorem PInv.grows {d : Fin 32} {p p' : Paging} (h : PInv p) (hg : Grows d p p')
    (hd : p.page_directory_used d = true) : PInv p' where
  frame_zero := hg.mono 0 h.frame_zero
  kernel {k} hk := by
    rw [hg.used] at hk
    by_cases hkd : k = d
    · rw [hkd, hg.kernel]
      exact h.kernel hd
    · rw [hg.other k hkd]
      exact h.kernel hk
  clean {k} hk := by
    rw [hg.used] at hk
    have hkd : k ≠ d := by
      rintro rfl
      rw [hd] at hk
      exact absurd hk (by simp)
    rw [hg.other k hkd]
    exact h.clean hk
  user {k j} hj hpres := by
    by_cases hkd : k = d
    · subst hkd
      rcases hg.entry j with he | ⟨f, h0, -, hf, he⟩
      · rw [he] at hpres ⊢
        obtain ⟨f, h0, hf, he⟩ := h.user hj hpres
        exact ⟨f, h0, hg.mono f hf, he⟩
      · exact ⟨f, h0, hf, he⟩
    · rw [hg.other k hkd] at hpres ⊢
      obtain ⟨f, h0, hf, he⟩ := h.user hj hpres
      exact ⟨f, h0, hg.mono f hf, he⟩
  apart {k k' j j' f} he he' := by
    rcases hf : p.page_frame_map f with _ | _
    · -- a frame that was free is mapped in `d` only
      have hback : ∀ {k j}, p'.page_directory_list k j = userEntry f → k = d := by
        intro k j he
        by_contra hkd
        rw [hg.other k hkd] at he
        rw [(h.frame_of_userEntry he).2.2] at hf
        exact absurd hf (by simp)
      obtain rfl := hback he
      obtain rfl := hback he'
      exact ⟨rfl, hg.apart j j' f hf he he'⟩
    · have hback : ∀ {k j}, p'.page_directory_list k j = userEntry f →
          p.page_directory_list k j = userEntry f := by
        intro k j he
        by_cases hkd : k = d
        · subst hkd
          rcases hg.entry j with he' | ⟨g, -, hgf, -, he'⟩
          · rw [← he', he]
          · obtain rfl := userEntry_injective (he.symm.trans he')
            rw [hf] at hgf
            exact absurd hgf (by simp)
        · rw [← hg.other k hkd, he]
      exact h.apart (hback he) (hback he')

theorem grows_mapped {p : Paging} (hp : PInv p) (d : Fin 32) (virtual_addr : UInt32) {f : Fin 32} (h0 : f ≠ 0)
    (hf : p.page_frame_map f = false) (hv : pageIndex virtual_addr ≠ 0x300) :
    Grows d p (mapped p d virtual_addr f) where
  used := rfl
  mono g hg := by
    simp only [mapped, Function.update_apply]
    split_ifs
    · rfl
    · exact hg
  other k hk := Function.update_of_ne hk _ _
  entry j := by
    simp only [mapped, Function.update_self]
    by_cases hj : j = pageIndex virtual_addr
    · rw [hj, Function.update_self]
      exact .inr ⟨f, h0, hf, Function.update_self _ _ _, rfl⟩
    · rw [Function.update_of_ne hj]
      exact .inl rfl
  kernel := by
    simp only [mapped, Function.update_self]
    exact Function.update_of_ne hv.symm _ _
  apart j j' g hg he he' := by
    -- an old entry has no free frame
    have hidx : ∀ i, (mapped p d virtual_addr f).page_directory_list d i = userEntry g →
        i = pageIndex virtual_addr := by
      intro i hi
      by_contra hne
      simp only [mapped, Function.update_self, Function.update_of_ne hne] at hi
      rw [(hp.frame_of_userEntry hi).2.2] at hg
      exact absurd hg (by simp)
    rw [hidx j he, hidx j' he']

theorem Grows.refl {p : Paging} (hp : PInv p) (d : Fin 32) : Grows d p p where
  used := rfl
  mono _ h := h
  other _ _ := rfl
  entry _ := .inl rfl
  kernel := rfl
  apart j j' f hf he _ := by
    rw [(hp.frame_of_userEntry he).2.2] at hf
    exact absurd hf (by simp)

theorem grows_allocate {p : Paging} (hp : PInv p) (d : Fin 32) {virtual_addr : UInt32}
    (hv : pageIndex virtual_addr ≠ 0x300) :
    Grows d p (paging_allocate_user_page_frame p d virtual_addr).2 := by
  rcases allocate_cases p d virtual_addr with ⟨f, h0, hf, he⟩ | ⟨-, he⟩
  · rw [he]
    exact grows_mapped hp d virtual_addr h0 hf hv
  · rw [he]
    exact .refl hp d

/-- CR3 is no part of the invariant. -/
theorem PInv.use {p : Paging} (h : PInv p) (a : UInt32) : PInv (paging_use_page_directory p a) :=
  ⟨h.frame_zero, h.kernel, h.clean, h.user, h.apart⟩

theorem Grows.use {d : Fin 32} {p q : Paging} {a : UInt32} (h : Grows d (paging_use_page_directory p a) q)
    (b : UInt32) : Grows d p (paging_use_page_directory q b) :=
  ⟨h.used, h.mono, h.other, h.entry, h.kernel, h.apart⟩

theorem PInv.takeDirectory {p : Paging} (h : PInv p) {d : Fin 32} (hd : p.page_directory_used d = false) :
    PInv (takeDirectory p d) where
  frame_zero := h.frame_zero
  kernel {k} hk := by
    simp only [KeropOS.takeDirectory] at hk ⊢
    by_cases hkd : k = d
    · subst hkd
      rw [Function.update_self, Function.update_self]
    · rw [Function.update_of_ne hkd] at hk ⊢
      exact h.kernel hk
  clean {k} hk := by
    simp only [KeropOS.takeDirectory] at hk ⊢
    by_cases hkd : k = d
    · subst hkd
      rw [Function.update_self] at hk
      exact absurd hk (by simp)
    · rw [Function.update_of_ne hkd] at hk ⊢
      exact h.clean hk
  user {k j} hj hpres := by
    simp only [KeropOS.takeDirectory] at hpres ⊢
    by_cases hkd : k = d
    · subst hkd
      rw [Function.update_self, Function.update_of_ne hj, h.clean hd] at hpres
      exact absurd hpres not_isPresent_empty
    · rw [Function.update_of_ne hkd] at hpres ⊢
      exact h.user hj hpres
  apart {k k' j j' f} he he' := by
    have hback : ∀ {k j}, (KeropOS.takeDirectory p d).page_directory_list k j = userEntry f →
        p.page_directory_list k j = userEntry f := by
      intro k j he
      simp only [KeropOS.takeDirectory] at he
      by_cases hkd : k = d
      · subst hkd
        rw [Function.update_self] at he
        by_cases hj : j = 0x300
        · rw [hj, Function.update_self] at he
          exact absurd he.symm (userEntry_ne_kernelEntry f)
        · rwa [Function.update_of_ne hj] at he
      · rwa [Function.update_of_ne hkd] at he
    exact h.apart (hback he) (hback he')

theorem PInv.dropDirectory {p : Paging} (h : PInv p) : PInv (dropDirectory p) := by
  have hlist : ∀ {k j}, ((KeropOS.dropDirectory p).page_directory_list k j).IsPresent →
      k ≠ 0 ∧ (KeropOS.dropDirectory p).page_directory_list k j = p.page_directory_list k j := by
    intro k j hpres
    simp only [KeropOS.dropDirectory] at hpres ⊢
    by_cases hk : k = 0
    · subst hk
      rw [Function.update_self] at hpres
      exact absurd hpres not_isPresent_empty
    · exact ⟨hk, by rw [Function.update_of_ne hk]⟩
  refine ⟨h.frame_zero, fun {k} hk => ?_, fun {k} hk j => ?_, fun {k j} hj hpres => ?_,
    fun {k k' j j' f} he he' => ?_⟩
  · simp only [KeropOS.dropDirectory] at hk ⊢
    by_cases hk0 : k = 0
    · subst hk0
      rw [Function.update_self] at hk
      exact absurd hk (by simp)
    · rw [Function.update_of_ne hk0] at hk ⊢
      exact h.kernel hk
  · simp only [KeropOS.dropDirectory] at hk ⊢
    by_cases hk0 : k = 0
    · subst hk0
      rw [Function.update_self]
    · rw [Function.update_of_ne hk0] at hk ⊢
      exact h.clean hk j
  · have hk := hlist hpres
    rw [hk.2] at hpres ⊢
    exact h.user hj hpres
  · have hk := hlist (by rw [he]; rfl)
    have hk' := hlist (by rw [he']; rfl)
    rw [hk.2] at he
    rw [hk'.2] at he'
    exact h.apart he he'

theorem pinv_initial (L : Linkage) : PInv (.initial L) where
  frame_zero := rfl
  kernel h := absurd h (by simp [Paging.initial])
  clean _ _ := rfl
  user _ h := absurd h not_isPresent_empty
  apart {k k' j j' f} he _ := by
    have : (userEntry f).IsPresent := rfl
    rw [← he] at this
    exact absurd this not_isPresent_empty

/-- No address below the kernel is on the kernel's page. -/
theorem pageIndex_ne {virtual_addr : UInt32} (h : virtual_addr.toNat < 0xC0000000) :
    pageIndex virtual_addr ≠ 0x300 := by
  intro he
  have hval := congrArg Fin.val he
  have hlt := virtual_addr.toNat_lt
  simp only [pageIndex, Fin.ofNat] at hval
  have h300 : (0x300 : Fin 1024).val = 768 := rfl
  omega

/-- **The pages of a new process.** -/
theorem grows_map_pages (L : Linkage) {p : Paging} (hp : PInv p) (d : Fin 32) {buf : UInt32}
    (hd : p.page_directory_used d = true) (hbuf : buf.toNat < 0xC0000000) :
    Grows d p (map_pages L p d buf) := by
  have h1 := grows_allocate (hp.use (L.dir d)) d (pageIndex_ne hbuf)
  have hp1 := (hp.use (L.dir d)).grows h1 hd
  have hstack : (0xBFFFFFFC : UInt32).toNat < 0xC0000000 := by
    rw [show (0xBFFFFFFC : UInt32).toNat = 3221225468 from rfl]
    omega
  rw [map_pages_eq]
  exact (h1.trans (grows_allocate hp1 d (pageIndex_ne hstack))).use _

theorem cr3_map_pages (L : Linkage) (p : Paging) (d : Fin 32) (buf : UInt32) :
    (map_pages L p d buf).cr3 = physical_addr_page_dir (p.cr3 + KERNEL_VIRTUAL_ADDRESS_BASE) := by
  rw [map_pages_eq, use_cr3, paging_get_current_page_directory_addr]

/-! ## The process table -/

/-- A control block that was never given to a process. -/
structure NeverUsed (s : Kernel) (i : Fin 16) : Prop where
  pid : (s.process_list i).pid = 0
  dead : s.list_of_process i = false
  state : (s.process_list i).state = READY
  dir : (s.process_list i).context.page_directory_virtual_addr = 0

/-- CR3 has the directory of pointer `a` loaded, or both are junk. -/
def Matches (L : Linkage) (a cr3 : UInt32) : Prop :=
  (∃ k, a = L.dir k ∧ cr3 = physical_addr_page_dir (L.dir k)) ∨ (Junk a ∧ Junk cr3)

/-- The directory pointer of slot `i`. -/
abbrev Kernel.dirOf (s : Kernel) (i : Fin 16) : UInt32 :=
  (s.process_list i).context.page_directory_virtual_addr

/-- **The invariant of the process table.** Directory 0 goes with slot 0 only, and with a live slot
0 it is in use; the other directories stay in use for ever. -/
structure KInv (L : Linkage) (s : Kernel) : Prop where
  paging : PInv s.paging
  pid : ∀ i, (s.process_list i).pid = UInt32.ofNat i ∨ NeverUsed s i
  one : ∀ {i j}, (s.process_list i).state = RUNNING → (s.process_list j).state = RUNNING → i = j
  pointer : ∀ i, Junk (s.dirOf i) ∨ ∃ k, s.dirOf i = L.dir k
  loaded : ∀ {i}, (s.process_list i).state = RUNNING → Matches L (s.dirOf i) s.paging.cr3
  dir_zero : ∀ {i}, s.dirOf i = L.dir 0 → i = 0
  slot_zero : s.paging.page_directory_used 0 = false → s.list_of_process 0 = false
  dir_used : ∀ {i k}, s.dirOf i = L.dir k → k ≠ 0 → s.paging.page_directory_used k = true

theorem kinv_initial (L : Linkage) : KInv L (.initial L) where
  paging := pinv_initial L
  pid i := .inr ⟨rfl, rfl, rfl, rfl⟩
  one h := absurd h (by simp [Kernel.initial, ProcessControlBlock.zero])
  pointer i := .inl (.inl rfl)
  loaded h := absurd h (by simp [Kernel.initial, ProcessControlBlock.zero])
  dir_zero h := absurd h (Junk.ne_dir (.inl rfl) L 0)
  slot_zero _ := rfl
  dir_used h := absurd h (Junk.ne_dir (.inl rfl) L _)

/-- Loading and reading back CR3 keeps a match. -/
theorem Matches.reload {L : Linkage} {a cr3 : UInt32} (h : Matches L a cr3) :
    Matches L a (physical_addr_page_dir (cr3 + KERNEL_VIRTUAL_ADDRESS_BASE)) := by
  rcases h with ⟨k, rfl, rfl⟩ | ⟨ha, hc⟩
  · exact .inl ⟨k, rfl, congrArg physical_addr_page_dir (reload_dir L k)⟩
  · rw [hc.add.physical]
    exact .inr ⟨ha, hc.add⟩

/-- What is read back from CR3 is the pointer that was loaded, or junk for junk. -/
theorem Matches.current {L : Linkage} {a cr3 : UInt32} (h : Matches L a cr3) :
    (∃ k, a = L.dir k ∧ cr3 + KERNEL_VIRTUAL_ADDRESS_BASE = L.dir k) ∨
      (Junk a ∧ Junk (cr3 + KERNEL_VIRTUAL_ADDRESS_BASE)) := by
  rcases h with ⟨k, rfl, rfl⟩ | ⟨ha, hc⟩
  · exact .inl ⟨k, rfl, reload_dir L k⟩
  · exact .inr ⟨ha, hc.add⟩

section

variable {L : Linkage} {s s' : Kernel} {r : ProcessRequest} {p i : Fin 16} {d : Fin 32}

theorem ofNat_injective : ∀ i j : Fin 16, UInt32.ofNat i = UInt32.ofNat j → i = j := by decide

/-- A slot that is not free was used before. -/
theorem KInv.pid_of_live (hs : KInv L s) (h : s.list_of_process i = true) :
    (s.process_list i).pid = UInt32.ofNat i := by
  rcases hs.pid i with hp | hn
  · exact hp
  · rw [hn.dead] at h
    exact absurd h (by simp)

/-- The directory a creation takes is 0 only for slot 0. -/
theorem Created.dir_zero (h : Created L s s' r p d) (hs : KInv L s) (hd : d = 0) : p = 0 := by
  subst hd
  by_contra hp
  exact h.slot.2 0 (Fin.pos_of_ne_zero hp) (hs.slot_zero h.dir.1)

theorem ne_of_live (hi : s.list_of_process i = true) (hp : s.list_of_process p = false) : i ≠ p := by
  rintro rfl
  rw [hi] at hp
  exact absurd hp (by simp)

/-- Only slot `p` becomes live. -/
theorem becomes_live_iff (hp : s.list_of_process p = false)
    (hlist : s'.list_of_process = Function.update s.list_of_process p true) :
    (s.list_of_process i = false ∧ s'.list_of_process i = true) ↔ i = p := by
  rw [hlist, Function.update_apply]
  constructor
  · rintro ⟨h, h'⟩
    split_ifs at h' with hi
    · exact hi
    · rw [h] at h'
      exact absurd h' (by simp)
  · rintro rfl
    exact ⟨hp, if_pos rfl⟩

theorem Created.pcb_of_ne (h : Created L s s' r p d) (hi : i ≠ p) : s'.process_list i = s.process_list i := by
  rw [h.pcbs, Function.update_of_ne hi]

theorem Created.pcb_self (h : Created L s s' r p d) :
    s'.process_list p = newPcb L r p d (s.process_list p) := by
  rw [h.pcbs, Function.update_self]

theorem Created.dirOf_self (h : Created L s s' r p d) : s'.dirOf p = L.dir d := by
  rw [Kernel.dirOf, h.pcb_self]
  rfl

theorem Created.dirOf_of_ne (h : Created L s s' r p d) (hi : i ≠ p) : s'.dirOf i = s.dirOf i := by
  rw [Kernel.dirOf, h.pcb_of_ne hi]

/-- The slot taken is the one that becomes live. -/
theorem Created.newborn_iff (h : Created L s s' r p d) :
    (s.list_of_process i = false ∧ s'.list_of_process i = true) ↔ i = p :=
  becomes_live_iff h.slot.1 h.list

theorem Created.list_self (h : Created L s s' r p d) : s'.list_of_process p = true := by
  rw [h.list, Function.update_self]

theorem Created.list_of_ne (h : Created L s s' r p d) (hi : i ≠ p) :
    s'.list_of_process i = s.list_of_process i := by
  rw [h.list, Function.update_of_ne hi]

theorem Created.grows (h : Created L s s' r p d) (hs : KInv L s) :
    Grows d (takeDirectory s.paging d) s'.paging := by
  rw [h.paging]
  exact grows_map_pages L (hs.paging.takeDirectory h.dir.1) d (Function.update_self _ _ _) h.buf

theorem Created.used (h : Created L s s' r p d) (hs : KInv L s) :
    s'.paging.page_directory_used = Function.update s.paging.page_directory_used d true :=
  (h.grows hs).used

theorem Created.used_mono (h : Created L s s' r p d) (hs : KInv L s) {k : Fin 32}
    (hk : s.paging.page_directory_used k = true) : s'.paging.page_directory_used k = true := by
  rw [h.used hs, Function.update_apply]
  split_ifs
  · rfl
  · exact hk

theorem Created.cr3 (h : Created L s s' r p d) : s'.paging.cr3 =
    physical_addr_page_dir (s.paging.cr3 + KERNEL_VIRTUAL_ADDRESS_BASE) := by
  rw [h.paging, cr3_map_pages]
  rfl

/-- The new process does not run yet. -/
theorem Created.ne_of_running (h : Created L s s' r p d) (hi : (s'.process_list i).state = RUNNING) : i ≠ p := by
  rintro rfl
  rw [h.pcb_self] at hi
  exact absurd hi (by simp [newPcb])

/-- **Creation keeps the invariant.** -/
theorem Created.kinv (h : Created L s s' r p d) (hs : KInv L s) : KInv L s' where
  paging := (hs.paging.takeDirectory h.dir.1).grows (h.grows hs) (Function.update_self _ _ _)
  pid i := by
    by_cases hi : i = p
    · subst hi
      rw [h.pcb_self]
      exact .inl rfl
    · rw [h.pcb_of_ne hi]
      exact (hs.pid i).imp id fun hn => ⟨by rw [h.pcb_of_ne hi]; exact hn.pid,
        by rw [h.list_of_ne hi]; exact hn.dead, by rw [h.pcb_of_ne hi]; exact hn.state,
        by rw [h.pcb_of_ne hi]; exact hn.dir⟩
  one {i j} hi hj := by
    rw [h.pcb_of_ne (h.ne_of_running hi)] at hi
    rw [h.pcb_of_ne (h.ne_of_running hj)] at hj
    exact hs.one hi hj
  pointer i := by
    by_cases hi : i = p
    · subst hi
      exact .inr ⟨d, h.dirOf_self⟩
    · rw [h.dirOf_of_ne hi]
      exact hs.pointer i
  loaded {i} hi := by
    have hne := h.ne_of_running hi
    rw [h.pcb_of_ne hne] at hi
    rw [h.dirOf_of_ne hne, h.cr3]
    exact (hs.loaded hi).reload
  dir_zero {i} hi := by
    by_cases hip : i = p
    · subst hip
      rw [h.dirOf_self] at hi
      exact h.dir_zero hs (L.dir_injective hi)
    · rw [h.dirOf_of_ne hip] at hi
      exact hs.dir_zero hi
  slot_zero hu := by
    have hd : (0 : Fin 32) ≠ d := by
      rintro rfl
      rw [h.used hs, Function.update_self] at hu
      exact absurd hu (by simp)
    rw [h.used hs, Function.update_of_ne hd] at hu
    -- the first free directory would have been 0
    exact absurd hu (h.dir.2 0 (Fin.pos_of_ne_zero hd.symm))
  dir_used {i k} hi hk := by
    by_cases hip : i = p
    · subst hip
      rw [h.dirOf_self] at hi
      rw [← L.dir_injective hi, h.used hs, Function.update_self]
    · rw [h.dirOf_of_ne hip] at hi
      exact h.used_mono hs (hs.dir_used hi hk)

theorem claim_dirOf (s : Kernel) (p i : Fin 16) : (claim s p).dirOf i = s.dirOf i := by
  rw [Kernel.dirOf, claim_context]

/-- **A creation without a directory keeps the invariant.** -/
theorem Claimed.kinv (h : Claimed s s' p) (hs : KInv L s) : KInv L s' := by
  obtain ⟨hslot, hdirs, rfl⟩ := h
  refine ⟨hs.paging, fun i => ?_, fun hi hj => ?_, fun i => ?_, fun {i} hi => ?_, fun {i} hi => ?_,
    fun hu => ?_, fun {i k} hi => ?_⟩
  · by_cases hi : i = p
    · subst hi
      exact .inl (by simp [claim])
    · refine (hs.pid i).imp (fun hp => ?_) fun hn => ⟨?_, ?_, ?_, ?_⟩
      · simpa only [claim, Function.update_of_ne hi] using hp
      · simpa only [claim, Function.update_of_ne hi] using hn.pid
      · simpa only [claim, Function.update_of_ne hi] using hn.dead
      · rw [claim_state]
        exact hn.state
      · rw [claim_context]
        exact hn.dir
  · rw [claim_state] at hi hj
    exact hs.one hi hj
  · rw [claim_dirOf]
    exact hs.pointer i
  · rw [claim_state] at hi
    rw [claim_dirOf]
    exact hs.loaded hi
  · rw [claim_dirOf] at hi
    exact hs.dir_zero hi
  · exact absurd hu (by simp [claim, hdirs 0])
  · rw [claim_dirOf] at hi
    exact hs.dir_used hi

/-- The control block that destruction finds is that of the slot, or one never used, for slot 0. -/
theorem Destroyed.found_cases (h : Destroyed L s s' p i) (hs : KInv L s) :
    i = p ∨ (p = 0 ∧ NeverUsed s i) := by
  rcases hs.pid i with hp | hn
  · exact .inl (ofNat_injective i p (hp.symm.trans h.found.1))
  · refine .inr ⟨?_, hn⟩
    exact (ofNat_injective 0 p (hn.pid.symm.trans h.found.1)).symm

/-- Directory 0 is given back only with slot 0. -/
theorem Destroyed.dir_zero (h : Destroyed L s s' p i) (hs : KInv L s) (hd : s.dirOf i = L.dir 0) :
    i = 0 ∧ p = 0 := by
  have hi := hs.dir_zero hd
  rcases h.found_cases hs with rfl | ⟨hp, -⟩
  · exact ⟨hi, hi⟩
  · exact ⟨hi, hp⟩

theorem Destroyed.pcb (h : Destroyed L s s' p i) (j : Fin 16) : s'.process_list j =
    { s.process_list j with state := if j = i then READY else (s.process_list j).state } := by
  rw [h.pcbs]
  by_cases hj : j = i
  · subst hj
    rw [Function.update_self, if_pos rfl]
  · rw [Function.update_of_ne hj, if_neg hj]

theorem Destroyed.dirOf (h : Destroyed L s s' p i) (j : Fin 16) : s'.dirOf j = s.dirOf j := by
  rw [Kernel.dirOf, h.pcb]

theorem Destroyed.dead (h : Destroyed L s s' p i) : s'.list_of_process p = false := by
  rw [h.list, Function.update_self]

/-- Only the process destroyed is stopped. -/
theorem Destroyed.ne_found (h : Destroyed L s s' p i) (hs : KInv L s) {j : Fin 16}
    (hj : (s.process_list j).state = RUNNING) (hjp : j ≠ p) : j ≠ i := by
  rintro rfl
  rcases h.found_cases hs with rfl | ⟨-, hnever⟩
  · exact hjp rfl
  · rw [hnever.state] at hj
    exact absurd hj (by simp)

theorem Destroyed.cr3 (h : Destroyed L s s' p i) : s'.paging.cr3 = s.paging.cr3 := by
  rw [h.paging]
  split_ifs <;> rfl

theorem Destroyed.used_of_ne (h : Destroyed L s s' p i) {k : Fin 32} (hk : k ≠ 0) :
    s'.paging.page_directory_used k = s.paging.page_directory_used k := by
  rw [h.paging]
  split_ifs
  · exact Function.update_of_ne hk _ _
  · rfl

/-- **Destruction keeps the invariant.** -/
theorem Destroyed.kinv (h : Destroyed L s s' p i) (hs : KInv L s) : KInv L s' where
  paging := by
    rw [h.paging]
    split_ifs
    · exact hs.paging.dropDirectory
    · exact hs.paging
  pid j := by
    refine (hs.pid j).imp (fun hp => ?_) fun hn => ⟨?_, ?_, ?_, ?_⟩
    · rw [h.pcb]
      exact hp
    · rw [h.pcb]
      exact hn.pid
    · rw [h.list, Function.update_apply]
      split_ifs
      · rfl
      · exact hn.dead
    · rw [h.pcb]
      simp only [hn.state, ite_self]
    · rw [h.pcb]
      exact hn.dir
  one {j k} hj hk := by
    rw [h.pcb] at hj hk
    simp only at hj hk
    split_ifs at hj hk
    exact hs.one hj hk
  pointer j := by
    rw [h.dirOf]
    exact hs.pointer j
  loaded {j} hj := by
    rw [h.pcb] at hj
    simp only at hj
    split_ifs at hj
    rw [h.dirOf, h.cr3]
    exact hs.loaded hj
  dir_zero {j} hj := by
    rw [h.dirOf] at hj
    exact hs.dir_zero hj
  slot_zero hu := by
    rw [h.list, Function.update_apply]
    split_ifs with hp
    · rfl
    · rw [h.paging] at hu
      split_ifs at hu with hd
      · exact absurd (h.dir_zero hs hd.symm).2.symm hp
      · exact hs.slot_zero hu
  dir_used {j k} hj hk := by
    rw [h.dirOf] at hj
    rw [h.used_of_ne hk]
    exact hs.dir_used hj hk

/-! ## Ticks -/

variable {cpu cpu' : Cpu} {next : Fin 16}

theorem running_eq_some_iff (hs : KInv L s) :
    process_get_current_running_pcb_pointer s = some i ↔ (s.process_list i).state = RUNNING := by
  refine running_eq_some.trans ⟨fun h => h.1, fun h => ⟨h, fun j hj hjr => ?_⟩⟩
  exact absurd (hs.one hjr h) (ne_of_lt hj)

theorem currentSlot_of_running (hs : KInv L s) (h : (s.process_list i).state = RUNNING) :
    currentSlot s = i := by
  rw [currentSlot, (running_eq_some_iff hs).mpr h]
  rfl

theorem savedContext_of_not_running (hs : KInv L s) (h : (s.process_list i).state ≠ RUNNING) :
    savedContext L s cpu i = (s.process_list i).context :=
  if_neg fun hr => h ((running_eq_some_iff hs).mp hr)

theorem savedContext_of_running (hs : KInv L s) (h : (s.process_list i).state = RUNNING) :
    savedContext L s cpu i =
      captured cpu L.kernel_esp (paging_get_current_page_directory_addr s.paging) :=
  if_pos ((running_eq_some_iff hs).mpr h)

/-- **The saved directory pointer is the old one**, or both are junk. -/
theorem savedContext_dir (hs : KInv L s) (cpu : Cpu) (i : Fin 16) :
    (∃ k, s.dirOf i = L.dir k ∧ (savedContext L s cpu i).page_directory_virtual_addr = L.dir k) ∨
      (Junk (s.dirOf i) ∧ Junk (savedContext L s cpu i).page_directory_virtual_addr) := by
  by_cases h : (s.process_list i).state = RUNNING
  · rw [savedContext_of_running hs h]
    exact (hs.loaded h).current
  · rw [savedContext_of_not_running hs h]
    rcases hs.pointer i with hj | ⟨k, hk⟩
    · exact .inr ⟨hj, hj⟩
    · exact .inl ⟨k, hk, hk⟩

theorem savedContext_dir_iff (hs : KInv L s) (cpu : Cpu) (i : Fin 16) (k : Fin 32) :
    (savedContext L s cpu i).page_directory_virtual_addr = L.dir k ↔ s.dirOf i = L.dir k := by
  rcases savedContext_dir hs cpu i with ⟨k', h1, h2⟩ | ⟨h1, h2⟩
  · rw [h1, h2]
  · exact ⟨fun h => absurd h (h2.ne_dir L k), fun h => absurd h (h1.ne_dir L k)⟩

theorem Ticked.dirOf_iff (h : Ticked L s s' cpu next cpu') (hs : KInv L s) (i : Fin 16) (k : Fin 32) :
    s'.dirOf i = L.dir k ↔ s.dirOf i = L.dir k := by
  rw [Kernel.dirOf, h.context]
  exact savedContext_dir_iff hs cpu i k

/-- After a tick the process chosen is the running one. -/
theorem Ticked.running_iff (h : Ticked L s s' cpu next cpu') (hs : KInv L s) :
    (s'.process_list i).state = RUNNING ↔ i = next := by
  rw [h.state]
  split_ifs with hn hc
  · exact ⟨fun _ => hn, fun _ => rfl⟩
  · exact ⟨fun h => absurd h (by simp), fun h => absurd h hn⟩
  · exact ⟨fun hr => absurd (currentSlot_of_running hs hr).symm hc, fun h => absurd h hn⟩

/-- **A tick keeps the invariant.** -/
theorem Ticked.kinv (h : Ticked L s s' cpu next cpu') (hs : KInv L s) : KInv L s' where
  paging := by
    rw [h.paging]
    exact hs.paging.use _
  pid i := by
    refine (hs.pid i).imp (fun hp => ?_) fun hn => ?_
    · rw [h.pid]
      exact hp
    · have hnr : (s.process_list i).state ≠ RUNNING := by
        rw [hn.state]
        decide
      have hne : i ≠ next := (ne_of_live h.chosen.1 hn.dead).symm
      refine ⟨by rw [h.pid]; exact hn.pid, by rw [h.list]; exact hn.dead, ?_, ?_⟩
      · rw [h.state, if_neg hne, hn.state, ite_self]
      · rw [h.context, savedContext_of_not_running hs hnr]
        exact hn.dir
  one hi hj := ((h.running_iff hs).mp hi).trans ((h.running_iff hs).mp hj).symm
  pointer i := by
    rw [Kernel.dirOf, h.context]
    rcases savedContext_dir hs cpu i with ⟨k, -, hk⟩ | ⟨-, hj⟩
    · exact .inr ⟨k, hk⟩
    · exact .inl hj
  loaded {i} hi := by
    obtain rfl := (h.running_iff hs).mp hi
    rw [Kernel.dirOf, h.context, h.paging]
    rcases savedContext_dir hs cpu i with ⟨k, -, hk⟩ | ⟨-, hj⟩
    · exact .inl ⟨k, hk, by rw [hk]; rfl⟩
    · refine .inr ⟨hj, ?_⟩
      rw [paging_use_page_directory, hj.physical]
      exact hj
  dir_zero {i} hi := hs.dir_zero ((h.dirOf_iff hs i 0).mp hi)
  slot_zero hu := by
    rw [h.paging] at hu
    rw [h.list]
    exact hs.slot_zero hu
  dir_used {i k} hi hk := by
    rw [h.paging]
    exact hs.dir_used ((h.dirOf_iff hs i k).mp hi) hk

end

/-! ## Runs -/

/-- **A step keeps the invariant.** -/
theorem kinv_step (L : Linkage) (s : Kernel) (e : Event) (s' : Kernel) (hs : KInv L s)
    (h : KStep L s e s') : KInv L s' := by
  cases e with
  | create r code =>
    rcases create_cases h with ⟨-, rfl⟩ | ⟨-, p, hc⟩ | ⟨-, p, d, hc⟩
    · exact hs
    · exact hc.kinv hs
    · exact hc.kinv hs
  | destroy pid result =>
    rcases destroy_cases h with ⟨-, rfl⟩ | ⟨-, p, i, -, hd⟩
    · exact hs
    · exact hd.kinv hs
  | tick cpu next cpu' =>
    obtain ⟨fuel, h⟩ := h
    exact (tick_cases h).kinv hs

/-- **The invariant holds in every state of every run.** -/
theorem kinv_of_run {L : Linkage} {es : List Event} {s : Kernel} (h : Run (KStep L) (.initial L) es s) :
    KInv L s :=
  h.invariant (KInv L) (kinv_step L) (kinv_initial L)

/-- A process that is not destroyed stays live, with its directory. -/
theorem stays_live {L : Linkage} {s t : Kernel} {e : Event} {p : Fin 16} (hs : KInv L s)
    (hlive : s.list_of_process p = true) (he : e ≠ .destroy (UInt32.ofNat p) true) (h : KStep L s e t) :
    t.list_of_process p = true ∧ ∀ k, t.dirOf p = L.dir k ↔ s.dirOf p = L.dir k := by
  cases e with
  | create r code =>
    rcases create_cases h with ⟨-, rfl⟩ | ⟨-, q, hq, -, rfl⟩ | ⟨-, q, d, hc⟩
    · exact ⟨hlive, fun _ => .rfl⟩
    · simp only [Kernel.dirOf, claim, Function.update_of_ne (ne_of_live hlive hq.1)]
      exact ⟨hlive, fun _ => trivial⟩
    · have hne := ne_of_live hlive hc.slot.1
      rw [hc.list_of_ne hne, hc.dirOf_of_ne hne]
      exact ⟨hlive, fun _ => .rfl⟩
  | destroy pid result =>
    rcases destroy_cases h with ⟨-, rfl⟩ | ⟨rfl, q, i, rfl, hd⟩
    · exact ⟨hlive, fun _ => .rfl⟩
    · have hpq : p ≠ q := fun hpq => he (by rw [hpq])
      rw [hd.list, Function.update_of_ne hpq, hd.dirOf]
      exact ⟨hlive, fun _ => .rfl⟩
  | tick cpu next cpu' =>
    obtain ⟨fuel, h⟩ := h
    have ht := tick_cases h
    exact ⟨by rw [ht.list, hlive], ht.dirOf_iff hs p⟩

theorem perform_step {L : Linkage} {s t : Kernel} {a : Action} {e : Event} (h : perform L s a = .ok (e, t)) :
    KStep L s e t := by
  cases a with
  | create r =>
    obtain ⟨_, hc, he⟩ := exists_of_map h
    obtain ⟨rfl, rfl⟩ := Prod.mk.inj he
    exact hc
  | destroy pid =>
    obtain ⟨_, hd, he⟩ := exists_of_map h
    obtain ⟨rfl, rfl⟩ := Prod.mk.inj he
    exact hd
  | tick cpu =>
    obtain ⟨_, ht, he⟩ := exists_of_map h
    obtain ⟨rfl, rfl⟩ := Prod.mk.inj he
    exact ⟨16, ht⟩

/-! ## A machine to run -/

/-- The kernel linked at some addresses. -/
def someLinkage : Linkage where
  page_directory_list := 0xC0110000
  kernel_directory := 0xC0108000
  kernel_esp := 0xC0180000
  high := by decide
  fits := by decide

/-- The request for the shell in `kernel.c`. -/
def shellRequest : ProcessRequest where
  buf := 0
  name := ![0x73, 0x68, 0x65, 0x6C, 0x6C, 0, 0, 0]
  buffer_size := 0x100000

/-- A user process at an instruction of its own. -/
def userCpu (eip : UInt32) : Cpu where
  edi := 1
  esi := 2
  ebp := 0xBFFFFF00
  esp := 0xBFFFFE00
  ebx := 3
  edx := 4
  ecx := 5
  eax := 6
  gs := 0x23
  fs := 0x23
  es := 0x23
  ds := 0x23
  eip := eip
  eflags := 0x202
  cs := 0x1B
  ss := 0x23

end KeropOS
