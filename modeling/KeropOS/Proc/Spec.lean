import KeropOS.Proc.Process
import KeropOS.Lib.RoundRobin

/-!
# What each step of the kernel does

* `userEntry`, **`allocate_cases`**: one page frame is taken, or none is free;
* **`create_cases`**, **`destroy_cases`**, **`tick_cases`**: the steps, case by case;
* `FirstFrom`, **`find_next_process_spec`**: the search of the scheduler.
-/

namespace KeropOS

open PROCESS_STATE RoundRobin

/-! ## Page frames -/

/-- The entry of a user page in frame `f`. -/
def userEntry (f : Fin 32) : PageDirectoryEntry where
  flag := { present_bit := true, write_bit := true, user_bit := true, use_pagesize_4_mb := true }
  lower_address := ⟨f, by omega⟩

/-- The state after frame `f` was taken for the page of `virtual_addr` in directory `d`. -/
def mapped (p : Paging) (d : Fin 32) (virtual_addr : UInt32) (f : Fin 32) : Paging :=
  { p with
    page_frame_map := Function.update p.page_frame_map f true
    page_directory_list := Function.update p.page_directory_list d
      (Function.update (p.page_directory_list d) (pageIndex virtual_addr) (userEntry f))
    free_page_frame_count := p.free_page_frame_count - 1 }

theorem frame_address : ∀ f : Fin 32,
    Fin.ofNat 1024 ((PAGE_FRAME_SIZE * UInt32.ofNat f).toNat / 2 ^ 22) = (⟨f, by omega⟩ : Fin 1024) := by
  decide

/-- **Taking a frame**: a free one other than frame 0, or nothing changes. -/
theorem allocate_cases (p : Paging) (d : Fin 32) (virtual_addr : UInt32) :
    (∃ f, f ≠ 0 ∧ p.page_frame_map f = false ∧
      (paging_allocate_user_page_frame p d virtual_addr).2 = mapped p d virtual_addr f) ∨
    ((∀ f, f ≠ 0 → p.page_frame_map f = true) ∧
      (paging_allocate_user_page_frame p d virtual_addr).2 = p) := by
  have hne : ∀ {f : Fin 32}, f ≠ 0 ↔ 1 ≤ f.val := fun {f} =>
    ⟨fun h => Nat.pos_of_ne_zero fun h0 => h (Fin.ext h0), fun h h0 => by
      rw [h0] at h
      exact absurd h (by decide)⟩
  unfold paging_allocate_user_page_frame
  rcases hf : Fin.find? fun i : Fin 32 => decide (1 ≤ i.val) && !p.page_frame_map i with _ | f
  · refine .inr ⟨fun f hf0 => ?_, rfl⟩
    have := Fin.find?_eq_none_iff.mp hf f
    simpa [hne.mp hf0] using this
  · have := (Fin.find?_eq_some_iff.mp hf).1
    rw [Bool.and_eq_true, decide_eq_true_eq, Bool.not_eq_true'] at this
    refine .inl ⟨f, hne.mpr this.1, this.2, ?_⟩
    simp only [mapped, update_page_directory_entry, frame_address]
    rfl

/-! ## Page directories -/

/-- The state after directory `d` was taken. -/
def takeDirectory (p : Paging) (d : Fin 32) : Paging :=
  { p with
    page_directory_used := Function.update p.page_directory_used d true
    page_directory_list := Function.update p.page_directory_list d
      (Function.update (p.page_directory_list d) 0x300 kernelEntry) }

/-- The state after directory 0, the only one the loop looks at, was given back. -/
def dropDirectory (p : Paging) : Paging :=
  { p with
    page_directory_used := Function.update p.page_directory_used 0 false
    page_directory_list := Function.update p.page_directory_list 0 fun _ => {} }

theorem free_page_directory_eq (L : Linkage) (p : Paging) (a : UInt32) :
    paging_free_page_directory L p a = (true, if L.dir 0 = a then dropDirectory p else p) := by
  rw [paging_free_page_directory, List.finRange_succ]
  rfl

/-- `p` is the first index with property `q`. -/
def FirstWith {n : ℕ} (q : Fin n → Prop) (p : Fin n) : Prop := q p ∧ ∀ i < p, ¬ q i

theorem create_new_page_directory_cases (p : Paging) :
    (∃ d, FirstWith (fun i => p.page_directory_used i = false) d ∧
      paging_create_new_page_directory p = some (d, takeDirectory p d)) ∨
    ((∀ d, p.page_directory_used d = true) ∧ paging_create_new_page_directory p = none) := by
  unfold paging_create_new_page_directory
  rcases hf : Fin.find? fun i => !p.page_directory_used i with _ | d
  · refine .inr ⟨fun d => ?_, rfl⟩
    simpa using Fin.find?_eq_none_iff.mp hf d
  · refine .inl ⟨d, ?_, rfl⟩
    simpa [FirstWith] using Fin.find?_eq_some_iff.mp hf

/-! ## Creation -/

theorem map_pages_eq (L : Linkage) (p : Paging) (d : Fin 32) (buf : UInt32) : map_pages L p d buf =
    paging_use_page_directory (paging_allocate_user_page_frame (paging_allocate_user_page_frame
      (paging_use_page_directory p (L.dir d)) d buf).2 d 0xBFFFFFFC).2
      (paging_get_current_page_directory_addr p) := rfl

/-- The control block of a new process. -/
def newPcb (L : Linkage) (r : ProcessRequest) (p : Fin 16) (d : Fin 32) (b : ProcessControlBlock) :
    ProcessControlBlock where
  pid := UInt32.ofNat p
  name := fun i => if h : i.val < 8 then r.name ⟨i, h⟩ else 0
  state := READY
  context := new_context b.context r.buf (L.dir d)
  page_frame_used_count := 0

/-- A creation that returns 0: slot `p` and directory `d` are taken. -/
structure Created (L : Linkage) (s s' : Kernel) (r : ProcessRequest) (p : Fin 16) (d : Fin 32) : Prop where
  buf : r.buf.toNat < 0xC0000000
  slot : FirstWith (fun i => s.list_of_process i = false) p
  dir : FirstWith (fun i => s.paging.page_directory_used i = false) d
  list : s'.list_of_process = Function.update s.list_of_process p true
  count : s'.active_process_count = s.active_process_count + 1
  pcbs : s'.process_list = Function.update s.process_list p (newPcb L r p d (s.process_list p))
  paging : s'.paging = map_pages L (takeDirectory s.paging d) d r.buf

theorem claim_state (s : Kernel) (p i : Fin 16) :
    ((claim s p).process_list i).state = (s.process_list i).state := by
  simp only [claim, Function.update_apply]
  split_ifs with hi
  · rw [hi]
  · rfl

theorem claim_context (s : Kernel) (p i : Fin 16) :
    ((claim s p).process_list i).context = (s.process_list i).context := by
  simp only [claim, Function.update_apply]
  split_ifs with hi
  · rw [hi]
  · rfl

/-- A creation that finds no directory for slot `p`. -/
structure Claimed (s s' : Kernel) (p : Fin 16) : Prop where
  slot : FirstWith (fun i => s.list_of_process i = false) p
  dirs : ∀ d, s.paging.page_directory_used d = true
  eq : s' = claim s p

theorem inactive_cases (s : Kernel) :
    (∃ p, FirstWith (fun i => s.list_of_process i = false) p ∧
      process_list_get_inactive_index s = some p) ∨
    ((∀ p, s.list_of_process p = true) ∧ process_list_get_inactive_index s = none) := by
  unfold process_list_get_inactive_index
  rcases hf : Fin.find? fun i => !s.list_of_process i with _ | p
  · refine .inr ⟨fun p => ?_, rfl⟩
    simpa using Fin.find?_eq_none_iff.mp hf p
  · refine .inl ⟨p, ?_, rfl⟩
    simpa [FirstWith] using Fin.find?_eq_some_iff.mp hf

/-- The end of `process_create_user_process`, with the answer of `paging_create_new_page_directory`. -/
def create_in (L : Linkage) (s : Kernel) (request : ProcessRequest) (p_index : Fin 16) :
    Option (Fin 32 × Paging) → Except Trap (ℤ × Kernel)
  | none => .ok (3, claim s p_index)
  | some (new_page_dir, paging) =>
    .ok (0, { claim s p_index with paging := map_pages L paging new_page_dir request.buf }.modify p_index
      fun new_pcb => { new_pcb with
        state := READY
        page_frame_used_count := 0
        context := new_context new_pcb.context request.buf (L.dir new_page_dir)
        name := fun i => if h : i.val < 8 then request.name ⟨i, h⟩ else 0 })

/-- `process_create_user_process` behind its checks, with the answer of `process_list_get_inactive_index`. -/
def create_admitted (L : Linkage) (s : Kernel) (request : ProcessRequest) :
    Option (Fin 16) → Except Trap (ℤ × Kernel)
  | none => .error .outOfBounds
  | some p_index => create_in L s request p_index (paging_create_new_page_directory (claim s p_index).paging)

theorem create_eq (L : Linkage) (s : Kernel) (r : ProcessRequest) : process_create_user_process L s r =
    if s.active_process_count.toNat ≥ 16 then .ok (1, s)
    else if r.buf ≥ KERNEL_VIRTUAL_ADDRESS_BASE then .ok (2, s)
    else if !paging_allocate_check s.paging (page_frame_count_needed r.buffer_size) ||
        page_frame_count_needed r.buffer_size > 8 then .ok (3, s)
    else create_admitted L s r (process_list_get_inactive_index s) := by
  rw [process_create_user_process]
  rcases process_list_get_inactive_index s with _ | p
  · rfl
  · simp only [create_admitted]
    rcases paging_create_new_page_directory (claim s p).paging with _ | ⟨d, q⟩
    · rfl
    · rfl

theorem lt_base {a : UInt32} (h : ¬ a ≥ KERNEL_VIRTUAL_ADDRESS_BASE) : a.toNat < 0xC0000000 := by
  have : ¬ KERNEL_VIRTUAL_ADDRESS_BASE.toNat ≤ a.toNat := fun hle => h (UInt32.le_iff_toNat_le.mpr hle)
  exact not_le.mp this

theorem create_admitted_cases {L : Linkage} {s s' : Kernel} {r : ProcessRequest} {code : ℤ}
    (hbuf : r.buf.toNat < 0xC0000000)
    (h : create_admitted L s r (process_list_get_inactive_index s) = .ok (code, s')) :
    (code = 3 ∧ ∃ p, Claimed s s' p) ∨ (code = 0 ∧ ∃ p d, Created L s s' r p d) := by
  rcases inactive_cases s with ⟨p, hp, hp'⟩ | ⟨-, hp'⟩
  · rw [hp', create_admitted] at h
    rcases create_new_page_directory_cases (claim s p).paging with ⟨d, hd, hd'⟩ | ⟨hd, hd'⟩
    · rw [hd', create_in] at h
      obtain ⟨rfl, rfl⟩ := Prod.mk.inj (Except.ok.inj h)
      refine .inr ⟨rfl, p, d, hbuf, hp, hd, rfl, rfl, ?_, rfl⟩
      simp only [Kernel.modify, claim, Function.update_self, Function.update_idem]
      rfl
    · rw [hd', create_in] at h
      obtain ⟨rfl, rfl⟩ := Prod.mk.inj (Except.ok.inj h)
      exact .inl ⟨rfl, p, hp, hd, rfl⟩
  · rw [hp', create_admitted] at h
    exact absurd h (by simp)

/-- Behind the checks creation returns, when a slot is free. -/
theorem create_admitted_returns (L : Linkage) (s : Kernel) (r : ProcessRequest)
    (h : ∃ p, s.list_of_process p = false) :
    ∃ reply, create_admitted L s r (process_list_get_inactive_index s) = .ok reply := by
  obtain ⟨p, hp⟩ := h
  rcases inactive_cases s with ⟨q, -, hq⟩ | ⟨hall, -⟩
  · rw [hq, create_admitted]
    rcases paging_create_new_page_directory (claim s q).paging with _ | ⟨d, paging⟩
    · exact ⟨_, rfl⟩
    · exact ⟨_, rfl⟩
  · rw [hall p] at hp
    exact absurd hp (by simp)

/-- **What `process_create_user_process` does.** -/
theorem create_cases {L : Linkage} {s s' : Kernel} {r : ProcessRequest} {code : ℤ}
    (h : process_create_user_process L s r = .ok (code, s')) :
    (code ≠ 0 ∧ s' = s) ∨ (code = 3 ∧ ∃ p, Claimed s s' p) ∨ (code = 0 ∧ ∃ p d, Created L s s' r p d) := by
  rw [create_eq] at h
  split_ifs at h with hcount hbuf hmem
  · obtain ⟨rfl, rfl⟩ := Prod.mk.inj (Except.ok.inj h)
    exact .inl ⟨by decide, rfl⟩
  · obtain ⟨rfl, rfl⟩ := Prod.mk.inj (Except.ok.inj h)
    exact .inl ⟨by decide, rfl⟩
  · obtain ⟨rfl, rfl⟩ := Prod.mk.inj (Except.ok.inj h)
    exact .inl ⟨by decide, rfl⟩
  · exact .inr (create_admitted_cases (lt_base hbuf) h)

/-- Creation returns, unless the process table is full without its counter saying so. -/
theorem create_returns (L : Linkage) (s : Kernel) (r : ProcessRequest)
    (h : s.active_process_count.toNat < 16 → ∃ p, s.list_of_process p = false) :
    ∃ reply, process_create_user_process L s r = .ok reply := by
  rw [create_eq]
  split_ifs with hcount
  · exact ⟨_, rfl⟩
  · exact ⟨_, rfl⟩
  · exact ⟨_, rfl⟩
  · exact create_admitted_returns L s r (h (not_le.mp hcount))

/-! ## Destruction -/

/-- The last control block with number `pid`. -/
def LastWithPid (s : Kernel) (pid : UInt32) (i : Fin 16) : Prop :=
  (s.process_list i).pid = pid ∧ ∀ j, i < j → (s.process_list j).pid ≠ pid

/-- A destruction of slot `p` that returns true and finds control block `i`. -/
structure Destroyed (L : Linkage) (s s' : Kernel) (p i : Fin 16) : Prop where
  live : s.list_of_process p = true
  found : LastWithPid s (UInt32.ofNat p) i
  list : s'.list_of_process = Function.update s.list_of_process p false
  count : s'.active_process_count = s.active_process_count - 1
  pcbs : s'.process_list = Function.update s.process_list i { s.process_list i with state := READY }
  paging : s'.paging =
    if L.dir 0 = (s.process_list i).context.page_directory_virtual_addr then dropDirectory s.paging
    else s.paging

theorem pcb_with_pid_iff {s : Kernel} {pid : UInt32} {i : Fin 16} :
    pcb_with_pid s pid = some i ↔ LastWithPid s pid i := by
  rw [pcb_with_pid, Fin.findRev?_eq_some_iff, LastWithPid]
  simp only [beq_iff_eq, beq_eq_false_iff_ne]

/-- **What `process_destroy` does.** -/
theorem destroy_cases {L : Linkage} {s s' : Kernel} {pid : UInt32} {result : Bool}
    (h : process_destroy L s pid = .ok (result, s')) :
    (result = false ∧ s' = s) ∨ (result = true ∧
      ∃ (p i : Fin 16), pid = UInt32.ofNat p ∧ Destroyed L s s' p i) := by
  rw [process_destroy] at h
  split_ifs at h with hpid hlive
  · obtain ⟨rfl, rfl⟩ := Prod.mk.inj (Except.ok.inj h)
    exact .inl ⟨rfl, rfl⟩
  · split at h
    · exact absurd h (by simp)
    · rename_i i hi
      obtain ⟨rfl, rfl⟩ := Prod.mk.inj (Except.ok.inj h)
      have hp : pid = UInt32.ofNat pid.toNat := (UInt32.ofNat_toNat).symm
      refine .inr ⟨rfl, ⟨pid.toNat, hpid⟩, i, hp, by simpa using hlive, ?_, rfl, rfl, rfl, ?_⟩
      · rw [← hp]
        exact pcb_with_pid_iff.mp hi
      · simp only [free_page_directory_eq]
        rfl
  · obtain ⟨rfl, rfl⟩ := Prod.mk.inj (Except.ok.inj h)
    exact .inl ⟨rfl, rfl⟩

/-- Destroying a live process with its own number returns true. -/
theorem destroy_returns (L : Linkage) {s : Kernel} {p : Fin 16} (hlive : s.list_of_process p = true)
    (hpid : (s.process_list p).pid = UInt32.ofNat p) :
    ∃ s' i, process_destroy L s (UInt32.ofNat p) = .ok (true, s') ∧ Destroyed L s s' p i := by
  have hp : (UInt32.ofNat p).toNat = p := UInt32.toNat_ofNat_of_lt' (by have := p.isLt; lia)
  have hlt : (UInt32.ofNat p.val).toNat < 16 := by rw [hp]; exact p.isLt
  have hfin : (⟨(UInt32.ofNat p.val).toNat, hlt⟩ : Fin 16) = p := Fin.ext hp
  rcases hi : pcb_with_pid s (UInt32.ofNat p) with _ | i
  · have := Fin.findRev?_eq_none_iff.mp hi p
    rw [hpid] at this
    exact absurd this (by simp)
  · have h : ∃ s', process_destroy L s (UInt32.ofNat p) = .ok (true, s') := by
      rw [process_destroy, dif_pos hlt, hfin, hlive]
      simp only [hi]
      exact ⟨_, rfl⟩
    obtain ⟨s', h⟩ := h
    rcases destroy_cases h with ⟨hf, -⟩ | ⟨-, q, j, hq, hd⟩
    · exact absurd hf (by simp)
    · have hqp : q = p := by
        have := congrArg UInt32.toNat hq
        rw [hp, UInt32.toNat_ofNat_of_lt' (by have := q.isLt; lia)] at this
        exact Fin.ext this.symm
      exact ⟨s', j, h, hqp ▸ hd⟩

/-! ## The scheduler -/

theorem wrap_eq : ∀ i : Fin 16, wrap (i + 1) = i + 1 := by decide

theorem wrap_pid : ∀ i : Fin 16, wrap (UInt32.ofNat i + 1).toNat = i + 1 := by decide

/-- **The search of the scheduler** finds the first live slot, going round from where it starts. -/
theorem find_next_process_spec {live : Fin 16 → Bool} {fuel : ℕ} {a i : Fin 16}
    (h : find_next_process live fuel a = some i) : FirstFrom (fun i => live i = true) a i := by
  induction fuel generalizing a with
  | zero => exact absurd h (by simp [find_next_process])
  | succ fuel ih =>
    rw [find_next_process, wrap_eq] at h
    split_ifs at h with ha
    · exact (firstFrom_step (by simp [ha])).mpr (ih h)
    · obtain rfl := Option.some.inj h
      exact firstFrom_self (by simpa using ha)

/-- The search ends after as many tests as the live slot found is away. -/
theorem find_next_process_returns {live : Fin 16 → Bool} {fuel : ℕ} {a i : Fin 16}
    (hi : FirstFrom (fun i => live i = true) a i) (hfuel : (i - a).val < fuel) :
    find_next_process live fuel a = some i := by
  induction fuel generalizing a with
  | zero => exact absurd hfuel (Nat.not_lt_zero _)
  | succ fuel ih =>
    rw [find_next_process, wrap_eq]
    split_ifs with ha
    · have hne : i ≠ a := by
        rintro rfl
        exact absurd hi.1 (by simp [ha])
      have := val_sub_eq hne
      exact ih ((firstFrom_step (by simp [ha])).mp hi) (by omega)
    · rw [(firstFrom_self (by simpa using ha)).unique hi]

/-- The context of slot `i` after the timer interrupt saved it. -/
def savedContext (L : Linkage) (s : Kernel) (cpu : Cpu) (i : Fin 16) : Context :=
  if process_get_current_running_pcb_pointer s = some i then
    captured cpu L.kernel_esp (paging_get_current_page_directory_addr s.paging)
  else (s.process_list i).context

/-- The slot the scheduler takes for the current one. -/
def currentSlot (s : Kernel) : Fin 16 := (process_get_current_running_pcb_pointer s).getD 0

/-- A timer interrupt that switches to slot `next`. -/
structure Ticked (L : Linkage) (s s' : Kernel) (cpu : Cpu) (next : Fin 16) (cpu' : Cpu) : Prop where
  chosen : FirstFrom (fun i => s.list_of_process i = true)
    (wrap ((s.process_list (currentSlot s)).pid + 1).toNat) next
  list : s'.list_of_process = s.list_of_process
  count : s'.active_process_count = s.active_process_count
  pid : ∀ i, (s'.process_list i).pid = (s.process_list i).pid
  state : ∀ i, (s'.process_list i).state =
    if i = next then RUNNING else if i = currentSlot s then READY else (s.process_list i).state
  context : ∀ i, (s'.process_list i).context = savedContext L s cpu i
  paging : s'.paging =
    paging_use_page_directory s.paging (savedContext L s cpu next).page_directory_virtual_addr
  loaded : cpu' = process_context_switch (savedContext L s cpu next)

theorem running_eq_some {s : Kernel} {i : Fin 16} :
    process_get_current_running_pcb_pointer s = some i ↔
      FirstWith (fun i => (s.process_list i).state = RUNNING) i := by
  rw [process_get_current_running_pcb_pointer, Fin.find?_eq_some_iff, FirstWith]
  simp only [beq_iff_eq, beq_eq_false_iff_ne, ne_eq]

/-- The control blocks after the save; it does not change which one is running. -/
theorem save_context_eq (L : Linkage) (s : Kernel) (cpu : Cpu) :
    scheduler_save_context_to_current_running_pcb s
      (captured cpu L.kernel_esp (paging_get_current_page_directory_addr s.paging)) =
    { s with process_list := fun i => { s.process_list i with context := savedContext L s cpu i } } := by
  unfold scheduler_save_context_to_current_running_pcb savedContext
  rcases hr : process_get_current_running_pcb_pointer s with _ | r
  · rfl
  · have hstate := (running_eq_some.mp hr).1
    simp only [Kernel.modify, Option.some.injEq]
    congr 1
    funext i
    by_cases hi : i = r
    · subst hi
      rw [Function.update_self, if_pos rfl, hstate]
    · rw [Function.update_of_ne hi, if_neg fun h => hi h.symm]

/-- The states after the switch from `cur` to `next`. -/
theorem switch_states (s : Kernel) (cur next : Fin 16) :
    (s.modify cur fun b => { b with state := READY }).modify next (fun b => { b with state := RUNNING }) =
      { s with process_list := fun i => { s.process_list i with
          state := if i = next then RUNNING else if i = cur then READY else (s.process_list i).state } } := by
  simp only [Kernel.modify]
  congr 1
  funext i
  by_cases hn : i = next
  · subst hn
    rw [Function.update_self, if_pos rfl]
    by_cases hc : i = cur
    · subst hc
      rw [Function.update_self]
    · rw [Function.update_of_ne hc]
  · rw [Function.update_of_ne hn, if_neg hn]
    by_cases hc : i = cur
    · subst hc
      rw [Function.update_self, if_pos rfl]
    · rw [Function.update_of_ne hc, if_neg hc]

theorem modify_list (s : Kernel) (i : Fin 16) (f : ProcessControlBlock → ProcessControlBlock) :
    (s.modify i f).list_of_process = s.list_of_process := rfl

theorem switch_eq (fuel : ℕ) (s : Kernel) : scheduler_switch_to_next_process fuel s =
    match find_next_process s.list_of_process fuel (wrap ((s.process_list (currentSlot s)).pid + 1).toNat) with
    | none => .error .outOfFuel
    | some next => .ok (next,
        { s with
          process_list := fun i => { s.process_list i with
            state := if i = next then RUNNING else if i = currentSlot s then READY
              else (s.process_list i).state }
          paging := paging_use_page_directory s.paging
            (s.process_list next).context.page_directory_virtual_addr },
        process_context_switch (s.process_list next).context) := by
  simp only [scheduler_switch_to_next_process, modify_list, switch_states]
  rfl

theorem switch_cases {fuel : ℕ} {s s' : Kernel} {cpu' : Cpu} {next : Fin 16}
    (h : scheduler_switch_to_next_process fuel s = .ok (next, s', cpu')) :
    find_next_process s.list_of_process fuel (wrap ((s.process_list (currentSlot s)).pid + 1).toNat) =
      some next ∧
    s' = { s with
      process_list := fun i => { s.process_list i with
        state := if i = next then RUNNING else if i = currentSlot s then READY
          else (s.process_list i).state }
      paging := paging_use_page_directory s.paging
        (s.process_list next).context.page_directory_virtual_addr } ∧
    cpu' = process_context_switch (s.process_list next).context := by
  rw [switch_eq] at h
  split at h
  · exact absurd h (by simp)
  · rename_i n hn
    simp only [Except.ok.injEq, Prod.mk.injEq] at h
    obtain ⟨rfl, rfl, rfl⟩ := h
    exact ⟨hn, rfl, rfl⟩

theorem switch_returns {s : Kernel} (h : ∃ i, s.list_of_process i = true) :
    ∃ reply, scheduler_switch_to_next_process 16 s = .ok reply := by
  obtain ⟨i, hi⟩ := exists_firstFrom (wrap ((s.process_list (currentSlot s)).pid + 1).toNat) h
  rw [switch_eq, find_next_process_returns hi (Fin.isLt _)]
  exact ⟨_, rfl⟩

theorem currentSlot_save (L : Linkage) (s : Kernel) (cpu : Cpu) :
    currentSlot { s with process_list := fun i =>
      { s.process_list i with context := savedContext L s cpu i } } = currentSlot s := by
  simp only [currentSlot, process_get_current_running_pcb_pointer]

/-- **What a timer interrupt does.** -/
theorem tick_cases {L : Linkage} {fuel : ℕ} {s s' : Kernel} {cpu cpu' : Cpu} {next : Fin 16}
    (h : timer_interrupt L fuel s cpu = .ok (next, s', cpu')) : Ticked L s s' cpu next cpu' := by
  rw [timer_interrupt, save_context_eq] at h
  obtain ⟨hn, rfl, rfl⟩ := switch_cases h
  rw [currentSlot_save] at hn
  exact ⟨find_next_process_spec hn, rfl, rfl, fun _ => rfl, fun i => by simp only [currentSlot_save],
    fun _ => rfl, rfl, rfl⟩

/-- A timer interrupt returns when a process is live. -/
theorem tick_returns (L : Linkage) {s : Kernel} (cpu : Cpu) (h : ∃ i, s.list_of_process i = true) :
    ∃ next s' cpu', timer_interrupt L 16 s cpu = .ok (next, s', cpu') := by
  rw [timer_interrupt, save_context_eq]
  obtain ⟨⟨next, s', cpu'⟩, hr⟩ := switch_returns (s := { s with process_list := fun i =>
    { s.process_list i with context := savedContext L s cpu i } }) h
  exact ⟨next, s', cpu', hr⟩

end KeropOS
