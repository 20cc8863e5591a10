import KeropOS.Proc.Conservation
import Mathlib.Data.Set.Card

/-!
# What a creation is admitted for, and what it delivers

The check before a creation counts frames, and compares their number with frames as if it were bytes.

* `Reading`: the divisions with the rounding of `float`, or exact; `create_as`, `KStepAs`: the kernel in a
  reading, **`create_as_single`**: in one it is the model;
* `Budget`, **`inBudget_of_run`**: the page directories in use and the free frames, along a run;
* `MemoryDelivered`; **`memory_delivered_iff`**: when the new process has the memory it asked for;
* `Unchanged`; **`failed_creation_unchanged_iff`**: when a creation that fails leaves everything as it was.
-/

namespace KeropOS

open Transition

/-! ## Two readings of the divisions -/

/-- A quotient of integers is exact, or its numerator is rounded to a `float` first. -/
inductive Reading
  | exact
  | single

def Reading.round : Reading → ℕ → ℕ
  | exact => id
  | single => float

/-- A `float` is zero for zero only. -/
theorem float_eq_zero {n : ℕ} (h : float n = 0) : n = 0 := by
  by_contra hn
  have hulp : 0 < 2 ^ (Nat.log2 n - 23) := Nat.two_pow_pos _
  have hle : 2 ^ (Nat.log2 n - 23) ≤ n :=
    le_trans (Nat.pow_le_pow_right (by decide) (Nat.sub_le _ _)) (Nat.log2_self_le hn)
  have hquot : 0 < n / 2 ^ (Nat.log2 n - 23) := Nat.div_pos hle hulp
  unfold float at h
  simp only at h
  split_ifs at h
  · exact absurd h (Nat.mul_pos hquot hulp).ne'
  · exact absurd h (Nat.mul_pos (Nat.succ_pos _) hulp).ne'

theorem Reading.round_eq_zero (reading : Reading) {n : ℕ} (h : reading.round n = 0) : n = 0 := by
  cases reading with
  | exact => exact h
  | single => exact float_eq_zero h

/-- `page_frame_count_needed` in a reading. -/
def needed_as (reading : Reading) (buffer_size : UInt32) : ℕ :=
  (reading.round (buffer_size + PAGE_FRAME_SIZE).toNat + PAGE_FRAME_SIZE.toNat - 1) / PAGE_FRAME_SIZE.toNat

/-- `paging_allocate_check` in a reading. -/
def allocate_check_as (reading : Reading) (p : Paging) (amount : ℕ) : Bool :=
  p.free_page_frame_count.toNat ≥ (reading.round amount + 0x400000 - 1) / 0x400000

/-- `process_create_user_process` in a reading. -/
def create_as (reading : Reading) (L : Linkage) (s : Kernel) (request : ProcessRequest) :
    Except Trap (ℤ × Kernel) :=
  if s.active_process_count.toNat ≥ 16 then .ok (1, s)
  else if request.buf ≥ KERNEL_VIRTUAL_ADDRESS_BASE then .ok (2, s)
  else if !allocate_check_as reading s.paging (needed_as reading request.buffer_size) ||
      needed_as reading request.buffer_size > 8 then .ok (3, s)
  else create_admitted L s request (process_list_get_inactive_index s)

theorem create_as_single : create_as .single = process_create_user_process := by
  funext L s r
  exact (create_eq L s r).symm

/-- One step of the kernel in a reading. -/
def KStepAs (reading : Reading) (L : Linkage) (s : Kernel) : Event → Kernel → Prop
  | .create r code, s' => create_as reading L s r = .ok (code, s')
  | .destroy pid result, s' => process_destroy L s pid = .ok (result, s')
  | .tick cpu next cpu', s' => ∃ fuel, timer_interrupt L fuel s cpu = .ok (next, s', cpu')

theorem kstepAs_single (L : Linkage) : KStepAs .single L = KStep L := by
  funext s e s'
  cases e with
  | create r code => rw [KStepAs, create_as_single, KStep]
  | destroy pid result => rfl
  | tick cpu next cpu' => rfl

/-- One step in a reading, as a function. -/
def performAs (reading : Reading) (L : Linkage) (s : Kernel) : Action → Except Trap (Event × Kernel)
  | .create r => (create_as reading L s r).map fun (code, s') => (.create r code, s')
  | .destroy pid => (process_destroy L s pid).map fun (result, s') => (.destroy pid result, s')
  | .tick cpu => (timer_interrupt L 16 s cpu).map fun (next, s', cpu') => (.tick cpu next cpu', s')

theorem performAs_step {reading : Reading} {L : Linkage} {s t : Kernel} {a : Action} {e : Event}
    (h : performAs reading L s a = .ok (e, t)) : KStepAs reading L s e t := by
  cases a with
  | create r =>
    obtain ⟨_, hc, he⟩ := exists_of_map h
    obtain ⟨rfl, rfl⟩ := Prod.mk.inj he
    exact hc
  | destroy pid =>
    obtain ⟨_, hd, he⟩ := exists_of_map h
    obtain ⟨rfl, rfl⟩ := Prod.mk.inj he
    exact hd
  | tick cpu =>
    obtain ⟨_, ht, he⟩ := exists_of_map h
    obtain ⟨rfl, rfl⟩ := Prod.mk.inj he
    exact ⟨16, ht⟩

/-! ## Admission -/

variable {reading : Reading} {L : Linkage} {s s' : Kernel} {r : ProcessRequest} {code : ℤ}
variable {p i : Fin 16} {d : Fin 32}

/-- The request passes the checks of `process_create_user_process`. -/
structure Admitted (reading : Reading) (s : Kernel) (r : ProcessRequest) : Prop where
  count : s.active_process_count.toNat < 16
  buf : r.buf.toNat < 0xC0000000
  frames : allocate_check_as reading s.paging (needed_as reading r.buffer_size) = true
  size : needed_as reading r.buffer_size ≤ 8

/-- The sum of the check is zero for one size, with which it wraps. -/
theorem needed_as_eq_zero_iff {size : UInt32} : needed_as reading size = 0 ↔ size = 0xFFC00000 := by
  have hsize : PAGE_FRAME_SIZE.toNat = 0x400000 := rfl
  unfold needed_as
  rw [hsize]
  constructor
  · intro h
    have hround : reading.round (size + PAGE_FRAME_SIZE).toNat = 0 := by omega
    have hsum : size + PAGE_FRAME_SIZE = 0 := UInt32.toNat_inj.mp (reading.round_eq_zero hround)
    calc size = size + PAGE_FRAME_SIZE - PAGE_FRAME_SIZE := (UInt32.add_sub_cancel _ _).symm
      _ = 0xFFC00000 := by rw [hsum]; rfl
  · rintro rfl
    cases reading <;> decide

theorem allocate_check_zero (p : Paging) : allocate_check_as reading p 0 = true := by
  have h0 : reading.round 0 = 0 := by cases reading <;> decide
  rw [allocate_check_as, h0, decide_eq_true_eq]
  exact Nat.zero_le _

/-- A creation of any other size is admitted only if a frame is free. -/
theorem Admitted.free_pos (h : Admitted reading s r) (hsize : r.buffer_size ≠ 0xFFC00000) :
    0 < s.paging.free_page_frame_count.toNat := by
  have hframes := h.frames
  have hround : reading.round (needed_as reading r.buffer_size) ≠ 0 := fun h0 =>
    hsize (needed_as_eq_zero_iff.mp (reading.round_eq_zero h0))
  rw [allocate_check_as, decide_eq_true_eq] at hframes
  omega

/-- **What creation does in a reading.** -/
theorem create_as_cases (h : create_as reading L s r = .ok (code, s')) :
    (¬ Admitted reading s r ∧ code ≠ 0 ∧ s' = s) ∨ (Admitted reading s r ∧ code = 3 ∧ ∃ p, Claimed s s' p) ∨
      (Admitted reading s r ∧ code = 0 ∧ ∃ p d, Created L s s' r p d) := by
  rw [create_as] at h
  split_ifs at h with hcount hbuf hmem
  · obtain ⟨rfl, rfl⟩ := Prod.mk.inj (Except.ok.inj h)
    exact .inl ⟨fun ha => absurd ha.count (not_lt.mpr hcount), by decide, rfl⟩
  · obtain ⟨rfl, rfl⟩ := Prod.mk.inj (Except.ok.inj h)
    have hle : 0xC0000000 ≤ r.buf.toNat := UInt32.le_iff_toNat_le.mp hbuf
    exact .inl ⟨fun ha => absurd ha.buf (not_lt.mpr hle), by decide, rfl⟩
  · obtain ⟨rfl, rfl⟩ := Prod.mk.inj (Except.ok.inj h)
    refine .inl ⟨fun ha => ?_, by decide, rfl⟩
    simp [ha.frames, not_lt.mpr ha.size] at hmem
  · have ha : Admitted reading s r := by
      simp only [Bool.or_eq_true, Bool.not_eq_true', decide_eq_true_eq, not_or, Bool.not_eq_false,
        not_lt] at hmem
      exact ⟨not_le.mp hcount, lt_base hbuf, hmem.1, hmem.2⟩
    rcases create_admitted_cases ha.buf h with h3 | h0
    · exact .inr (.inl ⟨ha, h3⟩)
    · exact .inr (.inr ⟨ha, h0⟩)

/-- **What a step does in a reading**: nothing, or one of the steps of the model. -/
theorem kstepAs_cases {e : Event} (h : KStepAs reading L s e s') :
    s' = s ∨ (∃ p, Claimed s s' p) ∨ (∃ r p d, Created L s s' r p d) ∨ (∃ p i, Destroyed L s s' p i) ∨
      ∃ cpu next cpu', Ticked L s s' cpu next cpu' := by
  cases e with
  | create r code =>
    rcases create_as_cases h with ⟨-, -, he⟩ | ⟨-, -, hc⟩ | ⟨-, -, hc⟩
    · exact .inl he
    · exact .inr (.inl hc)
    · exact .inr (.inr (.inl ⟨r, hc⟩))
  | destroy pid result =>
    rcases destroy_cases h with ⟨-, he⟩ | ⟨-, p, i, -, hd⟩
    · exact .inl he
    · exact .inr (.inr (.inr (.inl ⟨p, i, hd⟩)))
  | tick cpu next cpu' =>
    obtain ⟨fuel, h⟩ := h
    exact .inr (.inr (.inr (.inr ⟨cpu, next, cpu', tick_cases h⟩)))

/-! ## The budget of frames -/

/-- The counter is the number of free frames, and each directory in use has taken two of them, as long as
one is left. -/
structure Budget (p : Paging) : Prop where
  count : p.free_page_frame_count.toNat = freeFrames p
  bound : freeFrames p = 0 ∨ 2 * trues p.page_directory_used + freeFrames p ≤ 31

theorem budget_initial (L : Linkage) : Budget (.initial L) := by
  have hfree : freeFrames (.initial L) = 31 := calc
    freeFrames (.initial L) = trues fun f : Fin 32 => !decide (f = 0) := rfl
    _ = 31 := by decide
  have hused : trues (Paging.initial L).page_directory_used = 0 := calc
    trues (Paging.initial L).page_directory_used = trues fun _ : Fin 32 => false := rfl
    _ = 0 := by decide
  exact ⟨hfree.symm, .inr (by omega)⟩

/-- Frames stay, and no directory is taken. -/
theorem Budget.frame {q q' : Paging} (h : Budget q) (hmap : q'.page_frame_map = q.page_frame_map)
    (hcount : q'.free_page_frame_count = q.free_page_frame_count)
    (hused : ∀ k, q'.page_directory_used k = true → q.page_directory_used k = true) : Budget q' := by
  have hfree : freeFrames q' = freeFrames q := by rw [freeFrames, hmap, freeFrames]
  have hle := trues_le hused
  have hbound := h.bound
  exact ⟨by rw [hcount, h.count, hfree], by omega⟩

/-- With all directories in use no frame is free. -/
theorem Budget.free_eq_zero {q : Paging} (h : Budget q) (hall : ∀ k, q.page_directory_used k = true) :
    q.free_page_frame_count.toNat = 0 := by
  have hused : trues q.page_directory_used = 32 := by
    have : q.page_directory_used = fun _ => true := funext hall
    rw [this]
    decide
  have hbound := h.bound
  rw [h.count]
  omega

/-- A frame is taken, unless none is free. -/
theorem allocate_taken {q : Paging} (h0 : q.page_frame_map 0 = true) (d : Fin 32) (virtual_addr : UInt32) :
    (∃ f, q.page_frame_map f = false ∧
      (paging_allocate_user_page_frame q d virtual_addr).2 = mapped q d virtual_addr f ∧
      freeFrames (mapped q d virtual_addr f) + 1 = freeFrames q) ∨
    (freeFrames q = 0 ∧ (paging_allocate_user_page_frame q d virtual_addr).2 = q) := by
  rcases allocate_cases q d virtual_addr with ⟨f, -, hf, he⟩ | ⟨hall, he⟩
  · refine .inl ⟨f, hf, he, ?_⟩
    rw [← he]
    exact allocate_free h0 ⟨f, hf⟩ d virtual_addr
  · refine .inr ⟨?_, he⟩
    have : q.page_frame_map = fun _ => true := by
      funext f
      by_cases hf0 : f = 0
      · rw [hf0, h0]
      · exact hall f hf0
    rw [freeFrames, this]
    decide

/-- **What taking a frame counts**, if any is free. -/
theorem allocate_counts {q : Paging} (h0 : q.page_frame_map 0 = true)
    (hcount : q.free_page_frame_count.toNat = freeFrames q) (d : Fin 32) (virtual_addr : UInt32) :
    freeFrames (paging_allocate_user_page_frame q d virtual_addr).2 = freeFrames q - 1 ∧
      (paging_allocate_user_page_frame q d virtual_addr).2.free_page_frame_count.toNat = freeFrames q - 1 := by
  rcases allocate_taken h0 d virtual_addr with ⟨f, -, he, hone⟩ | ⟨hnone, he⟩
  · have hle : (1 : UInt32) ≤ q.free_page_frame_count := by
      rw [UInt32.le_iff_toNat_le, hcount]
      exact (by omega : 1 ≤ freeFrames q)
    rw [he]
    refine ⟨by omega, ?_⟩
    rw [mapped, UInt32.toNat_sub_of_le _ _ hle, hcount]
    rfl
  · rw [he, hcount, hnone]
    exact ⟨rfl, rfl⟩

/-- **What the two pages of a new process count.** -/
theorem map_pages_counts (L : Linkage) {q : Paging} (hq : PInv q)
    (hcount : q.free_page_frame_count.toNat = freeFrames q) (d : Fin 32) {buf : UInt32}
    (hd : q.page_directory_used d = true) (hbuf : buf.toNat < 0xC0000000) :
    freeFrames (map_pages L q d buf) = freeFrames q - 2 ∧
      (map_pages L q d buf).free_page_frame_count.toNat = freeFrames q - 2 := by
  have hq0 := hq.use (L.dir d)
  have h1 := allocate_counts hq0.frame_zero (by rw [use_free_page_frame_count, hcount]; rfl) d buf
  have hq1 := hq0.grows (grows_allocate hq0 d (pageIndex_ne hbuf)) hd
  have h2 := allocate_counts hq1.frame_zero (h1.2.trans h1.1.symm) d 0xBFFFFFFC
  have hsame : freeFrames (paging_use_page_directory q (L.dir d)) = freeFrames q := rfl
  rw [hsame] at h1
  rw [h1.1] at h2
  rw [map_pages_eq, use_free_page_frame_count, h2.2]
  refine ⟨?_, by omega⟩
  rw [freeFrames, use_page_frame_map]
  exact h2.1.trans (by omega)

/-- A creation takes two frames, as far as there are any. -/
theorem Created.counts (h : Created L s s' r p d) (hs : KInv L s) (hb : Budget s.paging) :
    freeFrames s'.paging = freeFrames s.paging - 2 ∧
      s'.paging.free_page_frame_count.toNat = freeFrames s.paging - 2 := by
  rw [h.paging]
  exact map_pages_counts L (hs.paging.takeDirectory h.dir.1) hb.count d (Function.update_self _ _ _) h.buf

theorem Created.budget (h : Created L s s' r p d) (hs : KInv L s) (hb : Budget s.paging) :
    Budget s'.paging := by
  have hcounts := h.counts hs hb
  have hused : trues s'.paging.page_directory_used = trues s.paging.page_directory_used + 1 := by
    rw [h.used hs]
    exact trues_set h.dir.1
  have hbound := hb.bound
  exact ⟨hcounts.2.trans hcounts.1.symm, by omega⟩

theorem Destroyed.budget (h : Destroyed L s s' p i) (hb : Budget s.paging) : Budget s'.paging := by
  refine hb.frame h.frames.1 h.frames.2 fun k hk => ?_
  rw [h.paging] at hk
  split_ifs at hk
  · by_cases hk0 : k = 0
    · simp only [hk0, dropDirectory, Function.update_self] at hk
      exact absurd hk (by simp)
    · simpa only [dropDirectory, Function.update_of_ne hk0] using hk
  · exact hk

/-- What holds along a run in a reading. -/
structure InBudget (L : Linkage) (s : Kernel) : Prop where
  inv : KInv L s
  budget : Budget s.paging

/-- **A step in a reading keeps it.** -/
theorem inBudget_step (s : Kernel) (e : Event) (s' : Kernel) (hs : InBudget L s)
    (h : KStepAs reading L s e s') : InBudget L s' := by
  rcases kstepAs_cases h with rfl | ⟨p, hc⟩ | ⟨r, p, d, hc⟩ | ⟨p, i, hd⟩ | ⟨cpu, next, cpu', ht⟩
  · exact hs
  · refine ⟨hc.kinv hs.inv, ?_⟩
    rw [hc.eq]
    exact hs.budget
  · exact ⟨hc.kinv hs.inv, hc.budget hs.inv hs.budget⟩
  · exact ⟨hd.kinv hs.inv, hd.budget hs.budget⟩
  · refine ⟨ht.kinv hs.inv, ?_⟩
    rw [ht.paging]
    exact hs.budget.frame (use_page_frame_map _ _) (use_free_page_frame_count _ _)
      fun k hk => by rwa [use_page_directory_used] at hk

theorem inBudget_of_run {es : List Event} (h : Run (KStepAs reading L) (.initial L) es s) : InBudget L s :=
  h.invariant (InBudget L) inBudget_step ⟨kinv_initial L, budget_initial L⟩

/-! ## The memory of a new process -/

/-- The page of the stack. -/
def stackPage : Fin 1024 := pageIndex 0xBFFFFFFC

/-- A byte of the program is on page `j`. -/
def Overlaps (r : ProcessRequest) (j : Fin 1024) : Prop :=
  ∃ k < r.buffer_size.toNat, pageIndex (r.buf + UInt32.ofNat k) = j

/-- The pages the program needs, and that of the stack. -/
def Promised (r : ProcessRequest) (j : Fin 1024) : Prop := Overlaps r j ∨ j = stackPage

/-- The entry maps a page for user code to frame `f`. -/
def PageDirectoryEntry.MapsTo (e : PageDirectoryEntry) (f : Fin 32) : Prop :=
  e.IsUser ∧ e.lower_address.val = f.val

/-- The creation of slot `p` with directory `d` delivers the promised pages, each with a frame of its own
that was free, and counts them. -/
structure MemoryDelivered (L : Linkage) (s s' : Kernel) (r : ProcessRequest) (p : Fin 16) (d : Fin 32) :
    Prop where
  newborn : s.list_of_process p = false ∧ s'.list_of_process p = true
  directory : s'.dirOf p = L.dir d
  mapped : ∀ j, Promised r j →
    ∃ f, s.paging.page_frame_map f = false ∧ (s'.paging.page_directory_list d j).MapsTo f
  distinct : ∀ j k f, Promised r j → Promised r k → (s'.paging.page_directory_list d j).MapsTo f →
    (s'.paging.page_directory_list d k).MapsTo f → j = k
  counted : s'.paging.free_page_frame_count.toNat + {j | Promised r j}.ncard =
    s.paging.free_page_frame_count.toNat

/-- The pages of the program are its first one and that of the stack. -/
theorem ncard_promised (hsize : 0 < r.buffer_size.toNat) (hne : pageIndex r.buf ≠ stackPage)
    (h : ∀ j, Overlaps r j → j = pageIndex r.buf ∨ j = stackPage) : {j | Promised r j}.ncard = 2 := by
  have hpair : {j | Promised r j} = {pageIndex r.buf, stackPage} := by
    ext j
    simp only [Set.mem_ofPred_eq, Set.mem_insert_iff, Set.mem_singleton_iff]
    constructor
    · rintro (hj | rfl)
      · exact h j hj
      · exact .inr rfl
    · rintro (rfl | rfl)
      · exact .inl ⟨0, hsize, by rw [show UInt32.ofNat 0 = 0 from rfl, UInt32.add_zero]⟩
      · exact .inr rfl
  rw [hpair, Set.ncard_pair hne]

/-- The program needs no page but that of the stack. -/
theorem ncard_promised_stack (h : ∀ j, Overlaps r j → j = stackPage) : {j | Promised r j}.ncard = 1 := by
  have hone : {j | Promised r j} = {stackPage} := by
    ext j
    simp only [Set.mem_ofPred_eq, Set.mem_singleton_iff]
    exact ⟨fun hj => hj.elim (h j) id, .inr⟩
  rw [hone, Set.ncard_singleton]

/-- A directory that was just taken. -/
def freshTable : PageDirectory := Function.update (fun _ => {}) 0x300 kernelEntry

/-- That with frame `f` for the first page of the program. -/
def programTable (r : ProcessRequest) (f : Fin 32) : PageDirectory :=
  Function.update freshTable (pageIndex r.buf) (userEntry f)

theorem not_isUser_freshTable (j : Fin 1024) : ¬ (freshTable j).IsUser := by
  unfold freshTable
  rw [Function.update_apply]
  split_ifs
  · exact fun h => absurd h.2 (by decide)
  · exact fun h => absurd h.1 (by decide)

theorem isUser_update {table : PageDirectory} {j k : Fin 1024} {f : Fin 32} :
    (Function.update table j (userEntry f) k).IsUser ↔ k = j ∨ (table k).IsUser := by
  by_cases hk : k = j
  · rw [hk, Function.update_self]
    exact iff_of_true ⟨rfl, rfl⟩ (.inl rfl)
  · rw [Function.update_of_ne hk, or_iff_right hk]

theorem isUser_programTable {j : Fin 1024} {f : Fin 32} :
    (programTable r f j).IsUser ↔ j = pageIndex r.buf := by
  rw [programTable, isUser_update, or_iff_left (not_isUser_freshTable j)]

theorem mapsTo_userEntry {f g : Fin 32} : (userEntry g).MapsTo f ↔ g = f :=
  ⟨fun h => Fin.ext h.2, fun h => ⟨⟨rfl, rfl⟩, congrArg Fin.val h⟩⟩

theorem mapped_table (q : Paging) (d : Fin 32) (virtual_addr : UInt32) (f : Fin 32) :
    (mapped q d virtual_addr f).page_directory_list d =
      Function.update (q.page_directory_list d) (pageIndex virtual_addr) (userEntry f) :=
  Function.update_self _ _ _

theorem takeDirectory_table (hs : KInv L s) (hd : s.paging.page_directory_used d = false) :
    (takeDirectory s.paging d).page_directory_list d = freshTable := by
  have hclean : s.paging.page_directory_list d = fun _ => {} := funext (hs.paging.clean hd)
  simp only [takeDirectory, freshTable, Function.update_self, hclean]

/-- **The table of a new process**: the first page of the program and that of the stack, as long as a frame
is free. -/
theorem Created.table (h : Created L s s' r p d) (hs : KInv L s) :
    (2 ≤ freeFrames s.paging ∧ ∃ f g, f ≠ g ∧ s.paging.page_frame_map f = false ∧
      s.paging.page_frame_map g = false ∧ s'.paging.page_directory_list d =
        Function.update (programTable r f) stackPage (userEntry g)) ∨
    (freeFrames s.paging = 1 ∧ ∃ f, s.paging.page_frame_map f = false ∧ s'.paging.page_directory_list d =
      programTable r f) ∨
    (freeFrames s.paging = 0 ∧ s'.paging.page_directory_list d = freshTable) := by
  have hinv := (hs.paging.takeDirectory h.dir.1).use (L.dir d)
  have hinv' := hinv.grows (grows_allocate hinv d (pageIndex_ne h.buf)) (Function.update_self _ _ _)
  have htake := takeDirectory_table hs h.dir.1
  rw [h.paging, map_pages_eq, use_page_directory_list]
  -- `q` is what the first frame is taken from
  generalize hq : paging_use_page_directory (takeDirectory s.paging d) (L.dir d) = q at hinv hinv' ⊢
  have hmap : q.page_frame_map = s.paging.page_frame_map := by rw [← hq, use_page_frame_map]; rfl
  have htable : q.page_directory_list d = freshTable := by rw [← hq, use_page_directory_list, htake]
  have hfree : freeFrames q = freeFrames s.paging := by rw [freeFrames, hmap, freeFrames]
  rw [← hfree, ← hmap]
  rcases allocate_taken hinv.frame_zero d r.buf with ⟨f, hf, he, hone⟩ | ⟨hnone, he⟩
  · rw [he] at hinv' ⊢
    rcases allocate_taken hinv'.frame_zero d 0xBFFFFFFC with ⟨g, hg, he', hone'⟩ | ⟨hnone, he'⟩
    · have hgf : g ≠ f := by
        rintro rfl
        simp [mapped] at hg
      refine .inl ⟨by omega, f, g, hgf.symm, hf, ?_, ?_⟩
      · simpa only [mapped, Function.update_of_ne hgf] using hg
      · rw [he', mapped_table, mapped_table, htable, programTable, stackPage]
    · refine .inr (.inl ⟨by omega, f, hf, ?_⟩)
      rw [he', mapped_table, htable, programTable]
  · rw [he] at hinv' ⊢
    rcases allocate_taken hinv'.frame_zero d 0xBFFFFFFC with ⟨g, -, -, hone'⟩ | ⟨-, he'⟩
    · omega
    · rw [he', htable]
      exact .inr (.inr ⟨hnone, rfl⟩)

/-- The memory a request asks for is what a creation takes: two pages, with the frames for them, or that of
the stack alone with the last frame. -/
def Fits (s : Kernel) (r : ProcessRequest) : Prop :=
  (2 ≤ s.paging.free_page_frame_count.toNat ∧ 0 < r.buffer_size.toNat ∧ pageIndex r.buf ≠ stackPage ∧
    ∀ j, Overlaps r j → j = pageIndex r.buf ∨ j = stackPage) ∨
  (s.paging.free_page_frame_count.toNat = 1 ∧ pageIndex r.buf = stackPage ∧ ∀ j, Overlaps r j → j = stackPage)

/-- **A creation whose memory fits delivers it.** -/
theorem Created.delivered (h : Created L s s' r p d) (hs : InBudget L s) (hfits : Fits s r) :
    MemoryDelivered L s s' r p d := by
  have hcounts := h.counts hs.inv hs.budget
  have hcount := hs.budget.count
  rcases hfits with ⟨htwo, hsize, hne, hover⟩ | ⟨hlast, hbuf, hover⟩
  · obtain ⟨f, g, hfg, hf, hg, ht⟩ : ∃ f g, f ≠ g ∧ s.paging.page_frame_map f = false ∧
        s.paging.page_frame_map g = false ∧ s'.paging.page_directory_list d =
          Function.update (programTable r f) stackPage (userEntry g) := by
      rcases h.table hs.inv with ⟨-, ht⟩ | ⟨hone, -⟩ | ⟨hnone, -⟩
      · exact ht
      · omega
      · omega
    have hprogram : s'.paging.page_directory_list d (pageIndex r.buf) = userEntry f := by
      rw [ht, Function.update_of_ne hne, programTable, Function.update_self]
    have hstack : s'.paging.page_directory_list d stackPage = userEntry g := by
      rw [ht, Function.update_self]
    have hpages : ∀ j, Promised r j → j = pageIndex r.buf ∨ j = stackPage := fun j hj =>
      hj.elim (hover j) .inr
    refine ⟨h.newborn_iff.mpr rfl, h.dirOf_self, fun j hj => ?_, fun j k n hj hk hjn hkn => ?_, ?_⟩
    · rcases hpages j hj with rfl | rfl
      · exact ⟨f, hf, hprogram ▸ mapsTo_userEntry.mpr rfl⟩
      · exact ⟨g, hg, hstack ▸ mapsTo_userEntry.mpr rfl⟩
    · rcases hpages j hj with rfl | rfl <;> rcases hpages k hk with rfl | rfl
      · rfl
      · rw [hprogram, mapsTo_userEntry] at hjn
        rw [hstack, mapsTo_userEntry] at hkn
        exact absurd (hjn.trans hkn.symm) hfg
      · rw [hstack, mapsTo_userEntry] at hjn
        rw [hprogram, mapsTo_userEntry] at hkn
        exact absurd (hkn.trans hjn.symm) hfg
      · rfl
    · rw [ncard_promised hsize hne hover]
      omega
  · obtain ⟨f, hf, ht⟩ : ∃ f, s.paging.page_frame_map f = false ∧ s'.paging.page_directory_list d =
        programTable r f := by
      rcases h.table hs.inv with ⟨htwo, -⟩ | ⟨-, ht⟩ | ⟨hnone, -⟩
      · omega
      · exact ht
      · omega
    have hpages : ∀ j, Promised r j → j = stackPage := fun j hj => hj.elim (hover j) id
    refine ⟨h.newborn_iff.mpr rfl, h.dirOf_self, fun j hj => ⟨f, hf, ?_⟩, fun j k n hj hk _ _ => ?_, ?_⟩
    · rw [hpages j hj, ← hbuf, ht, programTable, Function.update_self]
      exact mapsTo_userEntry.mpr rfl
    · rw [hpages j hj, hpages k hk]
    · rw [ncard_promised_stack hover]
      omega

/-- **What is delivered fits.** -/
theorem MemoryDelivered.fits {q : Fin 16} {k : Fin 32} (hm : MemoryDelivered L s s' r q k)
    (h : Created L s s' r p d) (hs : InBudget L s) : Fits s r := by
  have hcounts := h.counts hs.inv hs.budget
  have hcount := hs.budget.count
  have hcard := hm.counted
  obtain rfl := h.newborn_iff.mp hm.newborn
  obtain rfl := L.dir_injective (hm.directory.symm.trans h.dirOf_self)
  have huser : ∀ j, Promised r j → (s'.paging.page_directory_list k j).IsUser := fun j hj => by
    obtain ⟨f, -, hf⟩ := hm.mapped j hj
    exact hf.1
  rcases h.table hs.inv with ⟨htwo, f, g, -, -, -, ht⟩ | ⟨hone, f, -, ht⟩ | ⟨-, ht⟩
  · have hover : ∀ j, Overlaps r j → j = pageIndex r.buf ∨ j = stackPage := fun j hj => by
      have := huser j (.inl hj)
      rw [ht, isUser_update, isUser_programTable] at this
      exact this.symm
    refine .inl ⟨by omega, ?_, ?_, hover⟩
    · by_contra hsize
      have := ncard_promised_stack fun j (hj : Overlaps r j) => by
        obtain ⟨n, hn, -⟩ := hj
        omega
      omega
    · intro he
      have := ncard_promised_stack fun j (hj : Overlaps r j) => (hover j hj).elim (fun hj => hj.trans he) id
      omega
  · have hpage : ∀ j, Promised r j → j = pageIndex r.buf := fun j hj => by
      have := huser j hj
      rwa [ht, isUser_programTable] at this
    have hstack := hpage stackPage (.inr rfl)
    exact .inr ⟨by omega, hstack.symm, fun j hj => (hpage j (.inl hj)).trans hstack.symm⟩
  · have := huser stackPage (.inr rfl)
    rw [ht] at this
    exact absurd this (not_isUser_freshTable _)

/-- **When a creation delivers the memory it promises**, in both readings. -/
theorem memory_delivered_iff (reading : Reading) (L : Linkage) (es : List Event) (s s' : Kernel)
    (r : ProcessRequest) (hrun : Run (KStepAs reading L) (.initial L) es s)
    (hcreate : create_as reading L s r = .ok (0, s')) :
    (∃ p d, MemoryDelivered L s s' r p d) ↔ Fits s r := by
  have hs := inBudget_of_run hrun
  rcases create_as_cases hcreate with ⟨-, h0, -⟩ | ⟨-, h0, -⟩ | ⟨-, -, p, d, hc⟩
  · exact absurd rfl h0
  · exact absurd h0 (by decide)
  · exact ⟨fun ⟨q, k, hm⟩ => hm.fits hc hs, fun hfits => ⟨p, d, hc.delivered hs hfits⟩⟩

/-- The shell at boot: its page and that of the stack. -/
theorem memory_delivered_shell : ∃ s',
    create_as .exact someLinkage (.initial someLinkage) shellRequest = .ok (0, s') ∧
    ∃ p d, MemoryDelivered someLinkage (.initial someLinkage) s' shellRequest p d := by
  have h : (match create_as .exact someLinkage (.initial someLinkage) shellRequest with
      | .ok (code, _) => decide (code = 0)
      | .error _ => false) = true := by decide +kernel
  split at h
  · rename_i code s' hcreate
    obtain rfl := of_decide_eq_true h
    have hfits : Fits (.initial someLinkage) shellRequest := by
      refine .inl ⟨by decide, by decide, by decide, fun j ⟨k, hk, hj⟩ => .inl ?_⟩
      have hsize : shellRequest.buffer_size.toNat = 0x100000 := rfl
      have hbuf : shellRequest.buf = 0 := rfl
      rw [← hj, hbuf, UInt32.zero_add]
      refine Fin.ext ?_
      have hk' : (UInt32.ofNat k).toNat = k := UInt32.toNat_ofNat_of_lt' (lt_trans hk (by decide))
      simp only [pageIndex, Fin.ofNat, hk', UInt32.toNat_zero]
      omega
    exact ⟨s', hcreate, (memory_delivered_iff .exact someLinkage [] _ s' _ .nil hcreate).mpr hfits⟩
  · exact absurd h (by simp)

/-- A program with one byte on the second page, at boot: that page is not mapped. -/
theorem second_page_not_mapped : ∃ s', create_as .exact someLinkage (.initial someLinkage)
      { shellRequest with buffer_size := 0x400001 } = .ok (0, s') ∧
    Promised { shellRequest with buffer_size := 0x400001 } 1 ∧
    (∀ d, ¬ (s'.paging.page_directory_list d 1).IsPresent) ∧
    ¬ ∃ p d, MemoryDelivered someLinkage (.initial someLinkage) s'
      { shellRequest with buffer_size := 0x400001 } p d := by
  have h : (match create_as .exact someLinkage (.initial someLinkage)
        { shellRequest with buffer_size := 0x400001 } with
      | .ok (code, s') => decide (code = 0 ∧ ∀ d, (s'.paging.page_directory_list d 1).flag.present_bit = false)
      | .error _ => false) = true := by decide +kernel
  split at h
  · rename_i code s' hcreate
    obtain ⟨rfl, habsent⟩ := of_decide_eq_true h
    have hpromised : Promised { shellRequest with buffer_size := 0x400001 } 1 :=
      .inl ⟨0x400000, by decide, by decide⟩
    refine ⟨s', hcreate, hpromised, fun d hd => ?_, fun ⟨p, d, hm⟩ => ?_⟩
    · exact absurd (hd.symm.trans (habsent d)) (by simp)
    · obtain ⟨f, -, hf⟩ := hm.mapped 1 hpromised
      exact absurd (hf.1.1.symm.trans (habsent d)) (by simp)
  · exact absurd h (by simp)

/-! ## Creations that fail -/

/-- The process table, the frames and the directories in use are as before. -/
structure Unchanged (s s' : Kernel) : Prop where
  list : s'.list_of_process = s.list_of_process
  count : s'.active_process_count = s.active_process_count
  pcbs : s'.process_list = s.process_list
  frames : s'.paging.page_frame_map = s.paging.page_frame_map
  frame_count : s'.paging.free_page_frame_count = s.paging.free_page_frame_count
  directories : s'.paging.page_directory_used = s.paging.page_directory_used

theorem Unchanged.refl (s : Kernel) : Unchanged s s := ⟨rfl, rfl, rfl, rfl, rfl, rfl⟩

/-- A slot that was claimed is a change. -/
theorem Claimed.not_unchanged (h : Claimed s s' p) : ¬ Unchanged s s' := fun hu => by
  have hlist := congrFun hu.list p
  rw [h.eq, h.slot.1] at hlist
  exact absurd hlist (by simp [claim])

/-- The size with which the sum of the check wraps to zero is admitted without a frame. -/
theorem admitted_of_wrap (hsize : r.buffer_size = 0xFFC00000) (hbuf : r.buf.toNat < 0xC0000000)
    (hcount : s.active_process_count.toNat < 16) : Admitted reading s r := by
  have hneeded : needed_as reading r.buffer_size = 0 := needed_as_eq_zero_iff.mpr hsize
  exact ⟨hcount, hbuf, by rw [hneeded, allocate_check_zero], by rw [hneeded]; exact Nat.zero_le _⟩

/-- **When a creation that fails leaves everything as it was**, in both readings: unless the sum of the check
wraps to zero and all directories are in use. -/
theorem failed_creation_unchanged_iff (reading : Reading) (L : Linkage) (es : List Event) (s s' : Kernel)
    (r : ProcessRequest) (code : ℤ) (hrun : Run (KStepAs reading L) (.initial L) es s)
    (hcreate : create_as reading L s r = .ok (code, s')) (hfail : code ≠ 0) :
    Unchanged s s' ↔ ¬ (r.buffer_size = 0xFFC00000 ∧ r.buf.toNat < 0xC0000000 ∧
      s.active_process_count.toNat < 16 ∧ ∀ d, s.paging.page_directory_used d = true) := by
  rcases create_as_cases hcreate with ⟨hno, -, rfl⟩ | ⟨ha, -, p, hc⟩ | ⟨-, h0, -⟩
  · exact iff_of_true (.refl _) fun ⟨hsize, hbuf, hcount, _⟩ => hno (admitted_of_wrap hsize hbuf hcount)
  · refine iff_of_false hc.not_unchanged (not_not.mpr ⟨?_, ha.buf, ha.count, hc.dirs⟩)
    by_contra hsize
    have hpos := ha.free_pos hsize
    have hzero := (inBudget_of_run hrun).budget.free_eq_zero hc.dirs
    omega
  · exact absurd h0 hfail

/-- At boot, a program in the kernel's half. -/
theorem failed_creation_unchanged_boot : ∃ s', create_as .exact someLinkage (.initial someLinkage)
      { shellRequest with buf := 0xC0000000 } = .ok (2, s') ∧ Unchanged (.initial someLinkage) s' := by
  have hcreate : create_as .exact someLinkage (.initial someLinkage) { shellRequest with buf := 0xC0000000 } =
      .ok (2, .initial someLinkage) := by
    rw [create_as, if_neg (by decide), if_pos (by decide)]
  have hiff := failed_creation_unchanged_iff .exact someLinkage [] _ _ _ 2 .nil hcreate (by decide)
  exact ⟨_, hcreate, hiff.mpr fun h => absurd h.2.1 (by decide)⟩

/-- The size with which the sum of the check wraps to zero, for a file that is not there: `read` loads
nothing. -/
def wrapRequest : ProcessRequest where
  buf := 0
  name := ![0x6E, 0x6F, 0x6E, 0x65, 0, 0, 0, 0]
  buffer_size := 0xFFC00000

/-- With all 31 frames taken, processes of that size come and go in slot 15 until all directories are in
use; the next one keeps the slot. -/
theorem failed_creation_keeps_slot : ∃ es s s',
    Run (KStepAs .exact someLinkage) (.initial someLinkage) es s ∧
    create_as .exact someLinkage s wrapRequest = .ok (3, s') ∧
    s.list_of_process 15 = false ∧ s'.list_of_process 15 = true ∧ ¬ Unchanged s s' := by
  obtain ⟨es, s, _, hrun, hq⟩ := exists_run (performAs .exact someLinkage) performAs_step (fun _ _ _ => id)
    (.initial someLinkage, ())
    (List.replicate 16 (.create shellRequest) ++
      (List.replicate 16 [.destroy 15, .create wrapRequest]).flatten ++ [.destroy 15] : List Action)
    (fun _ s _ =>
      match create_as .exact someLinkage s wrapRequest with
      | .ok (code, s') => decide (code = 3 ∧ s.list_of_process 15 = false ∧ s'.list_of_process 15 = true)
      | .error _ => false) (by decide +kernel)
  split at hq
  · rename_i code s' hcreate
    obtain ⟨rfl, hfree, hlive⟩ := of_decide_eq_true hq
    refine ⟨es, s, s', hrun.unrecorded, hcreate, hfree, hlive, fun hu => ?_⟩
    rw [hu.list, hfree] at hlive
    exact absurd hlive (by simp)
  · exact absurd hq (by simp)

end KeropOS
