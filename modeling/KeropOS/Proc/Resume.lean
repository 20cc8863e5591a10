import KeropOS.Proc.Invariant

/-!
# The process on the CPU

At most one control block is `RUNNING`. The record of a run holds the slot whose process is on the
CPU, and for each slot the context its process was left with: the one captured when it was last
preempted, or the one set up at its creation.

* **`one_process_runs`**: the scheduler ends, with one running process;
* `History.next`: the record; `Follows`: the control blocks follow it;
* **`resumed_context`**: a process resumes with the context it was left with.
-/

namespace KeropOS

open PROCESS_STATE Transition

/-! ## One running process -/

section

variable {L : Linkage} {s s' : Kernel} {cpu cpu' : Cpu} {next : Fin 16}

/-- After a switch the process chosen is live, and it alone is running. -/
theorem switch_running (hs : KInv L s) {fuel : ℕ}
    (h : scheduler_switch_to_next_process fuel s = .ok (next, s', cpu')) :
    s'.list_of_process next = true ∧ ∀ i, (s'.process_list i).state = RUNNING ↔ i = next := by
  obtain ⟨hn, rfl, -⟩ := switch_cases h
  refine ⟨(find_next_process_spec hn).1, fun i => ?_⟩
  simp only
  split_ifs with hi hc
  · exact ⟨fun _ => hi, fun _ => rfl⟩
  · exact ⟨fun h => absurd h (by simp), fun h => absurd h hi⟩
  · exact ⟨fun hr => absurd (currentSlot_of_running hs hr).symm hc, fun h => absurd h hi⟩

end

/-- **A single process runs.** In every state of every run at most one control block is `RUNNING`.
With a live slot the search of the scheduler ends within 16 tests, and leaves exactly one `RUNNING`
control block, that of a live slot. -/
theorem one_process_runs (L : Linkage) (es : List Event) (s : Kernel) (hrun : Run (KStep L) (.initial L) es s) :
    (∀ i j, (s.process_list i).state = RUNNING → (s.process_list j).state = RUNNING → i = j) ∧
    ((∃ i, s.list_of_process i = true) →
      (∃ next s' cpu', scheduler_switch_to_next_process 16 s = .ok (next, s', cpu') ∧
        s'.list_of_process next = true ∧ ∀ i, (s'.process_list i).state = RUNNING ↔ i = next) ∧
      ∀ cpu, ∃ next s' cpu', timer_interrupt L 16 s cpu = .ok (next, s', cpu') ∧
        s'.list_of_process next = true ∧ ∀ i, (s'.process_list i).state = RUNNING ↔ i = next) := by
  have hs := kinv_of_run hrun
  refine ⟨fun _ _ => hs.one, fun hlive => ⟨?_, fun cpu => ?_⟩⟩
  · obtain ⟨⟨next, s', cpu'⟩, hswitch⟩ := switch_returns hlive
    exact ⟨next, s', cpu', hswitch, switch_running hs hswitch⟩
  · obtain ⟨next, s', cpu', htick⟩ := tick_returns L cpu hlive
    have ht := tick_cases htick
    exact ⟨next, s', cpu', htick, by rw [ht.list]; exact ht.chosen.1, fun i => ht.running_iff hs⟩

/-- A process destroys itself; then nothing is running, and another process is live. -/
theorem one_process_runs_after_exit : ∃ es s, Run (KStep someLinkage) (.initial someLinkage) es s ∧
    (∀ i, (s.process_list i).state ≠ RUNNING) ∧
    ∃ next s' cpu', timer_interrupt someLinkage 16 s (userCpu 0) = .ok (next, s', cpu') ∧
      s'.list_of_process next = true ∧ ∀ i, (s'.process_list i).state = RUNNING ↔ i = next := by
  obtain ⟨es, s, _, hrun, hq⟩ := exists_run (perform someLinkage) perform_step (fun _ _ _ => id)
    (.initial someLinkage, ())
    [.create shellRequest, .create shellRequest, .tick (userCpu 0), .destroy 1]
    (fun _ s _ => decide ((∀ i, (s.process_list i).state ≠ RUNNING) ∧ s.list_of_process 0 = true))
    (by decide +kernel)
  obtain ⟨hnone, hlive⟩ := of_decide_eq_true hq
  exact ⟨es, s, hrun.unrecorded, hnone,
    ((one_process_runs someLinkage es s hrun.unrecorded).2 ⟨0, hlive⟩).2 (userCpu 0)⟩

/-! ## The record -/

/-- The slot whose process is on the CPU, and the context each process was left with. -/
structure History where
  onCpu : Option (Fin 16)
  left : Fin 16 → Option Context

def History.initial : History := ⟨none, fun _ => none⟩

/-- A creation that returns 0 leaves the new process with the context it set up, a tick leaves the
process on the CPU with the one the interrupt captured. -/
def History.next (L : Linkage) (s : Kernel) (e : Event) (s' : Kernel) (h : History) : History :=
  match e with
  | .create _ code =>
    { h with left := fun i =>
        if s.list_of_process i = false ∧ s'.list_of_process i = true then
          if code = 0 then some (s'.process_list i).context else none
        else h.left i }
  | .destroy _ false => h
  | .destroy _ true =>
    { onCpu := h.onCpu.filter fun i => s'.list_of_process i
      left := fun i => if s'.list_of_process i = true then h.left i else none }
  | .tick cpu next _ =>
    { onCpu := some next
      left := fun i =>
        if h.onCpu = some i then
          some (captured cpu L.kernel_esp (paging_get_current_page_directory_addr s.paging))
        else h.left i }

/-- The control blocks follow the record: that of the process on the CPU is `RUNNING`, and those of
the others hold the contexts they were left with. -/
structure Follows (s : Kernel) (h : History) : Prop where
  saved : ∀ {i ctx}, h.onCpu ≠ some i → h.left i = some ctx → (s.process_list i).context = ctx
  onCpu : ∀ {i}, h.onCpu = some i → s.list_of_process i = true ∧ (s.process_list i).state = RUNNING
  running : ∀ {i}, (s.process_list i).state = RUNNING → h.onCpu = some i ∨ h.left i = none

theorem follows_initial (L : Linkage) : Follows (.initial L) .initial where
  saved _ h := absurd h (by simp [History.initial])
  onCpu h := absurd h (by simp [History.initial])
  running h := absurd h (by simp [Kernel.initial, ProcessControlBlock.zero])

section

variable {L : Linkage} {s s' : Kernel} {h : History} {r : ProcessRequest} {p i : Fin 16} {d : Fin 32}

theorem next_create (L : Linkage) (s s' : Kernel) (r : ProcessRequest) (code : ℤ) (h : History) (i : Fin 16) :
    (History.next L s (.create r code) s' h).left i =
      if s.list_of_process i = false ∧ s'.list_of_process i = true then
        if code = 0 then some (s'.process_list i).context else none
      else h.left i := rfl

/-- A creation that takes slot `p` changes the record of that slot. -/
theorem next_create_claim {code : ℤ} (hp : s.list_of_process p = false)
    (hlist : s'.list_of_process = Function.update s.list_of_process p true) :
    (History.next L s (.create r code) s' h).left i =
      if i = p then if code = 0 then some (s'.process_list i).context else none else h.left i := by
  simp only [next_create, becomes_live_iff hp hlist]

theorem next_create_refused (L : Linkage) (s : Kernel) (r : ProcessRequest) (code : ℤ) (h : History) :
    History.next L s (.create r code) s h = h := by
  have : (History.next L s (.create r code) s h).left = h.left := by
    funext i
    rw [next_create, if_neg]
    rintro ⟨h0, h1⟩
    rw [h0] at h1
    exact absurd h1 (by simp)
  exact congrArg (History.mk h.onCpu) this

theorem Created.follows (hc : Created L s s' r p d) (hf : Follows s h) :
    Follows s' (History.next L s (.create r 0) s' h) where
  saved {i ctx} hcpu hleft := by
    rw [next_create_claim hc.slot.1 hc.list, if_pos rfl] at hleft
    split_ifs at hleft with hi
    · exact Option.some.inj hleft
    · rw [hc.pcb_of_ne hi]
      exact hf.saved hcpu hleft
  onCpu {i} hcpu := by
    obtain ⟨hlive, hrun⟩ := hf.onCpu hcpu
    have hi : i ≠ p := ne_of_live hlive hc.slot.1
    exact ⟨by rw [hc.list_of_ne hi, hlive], by rw [hc.pcb_of_ne hi, hrun]⟩
  running {i} hrun := by
    have hi := hc.ne_of_running hrun
    rw [hc.pcb_of_ne hi] at hrun
    rw [next_create_claim hc.slot.1 hc.list, if_neg hi]
    exact hf.running hrun

/-- A slot claimed without a directory has no context to resume with. -/
theorem Claimed.follows (hc : Claimed s s' p) (hf : Follows s h) :
    Follows s' (History.next L s (.create r 3) s' h) := by
  obtain ⟨hslot, -, rfl⟩ := hc
  have hleft : ∀ i, (History.next L s (.create r 3) (claim s p) h).left i =
      if i = p then none else h.left i := by
    intro i
    rw [next_create_claim hslot.1 rfl, if_neg (show ¬ (3 : ℤ) = 0 by decide)]
  refine ⟨fun {i ctx} hcpu hl => ?_, fun {i} hcpu => ?_, fun {i} hrun => ?_⟩
  · rw [hleft] at hl
    split_ifs at hl
    rw [claim_context]
    exact hf.saved hcpu hl
  · obtain ⟨hlive, hrun⟩ := hf.onCpu hcpu
    refine ⟨?_, by rw [claim_state, hrun]⟩
    simp only [claim, Function.update_apply, hlive, ite_self]
  · rw [claim_state] at hrun
    rw [hleft]
    split_ifs
    · exact .inr rfl
    · exact hf.running hrun

/-- A destruction of the process on the CPU leaves no `RUNNING` control block with a context to
resume with. -/
theorem Destroyed.follows {pid : UInt32} (hd : Destroyed L s s' p i) (hs : KInv L s) (hf : Follows s h) :
    Follows s' (History.next L s (.destroy pid true) s' h) := by
  have honCpu : ∀ j, (History.next L s (.destroy pid true) s' h).onCpu = some j ↔
      h.onCpu = some j ∧ s'.list_of_process j = true := fun j => Option.filter_eq_some_iff
  have hleft : ∀ j, (History.next L s (.destroy pid true) s' h).left j =
      if s'.list_of_process j = true then h.left j else none := fun _ => rfl
  refine ⟨fun {j ctx} hcpu hl => ?_, fun {j} hcpu => ?_, fun {j} hrun => ?_⟩
  · rw [hleft] at hl
    split_ifs at hl with hlive
    rw [hd.pcb]
    exact hf.saved (fun hj => hcpu ((honCpu j).mpr ⟨hj, hlive⟩)) hl
  · obtain ⟨hj, hlive⟩ := (honCpu j).mp hcpu
    have hrun := (hf.onCpu hj).2
    refine ⟨hlive, ?_⟩
    rw [hd.pcb, if_neg (hd.ne_found hs hrun (ne_of_live hlive hd.dead)), hrun]
  · rw [hd.pcb] at hrun
    simp only at hrun
    split_ifs at hrun
    rw [hleft]
    split_ifs with hlive
    · exact (hf.running hrun).imp (fun hj => (honCpu j).mpr ⟨hj, hlive⟩) id
    · exact .inr rfl

/-- **After a tick every control block holds the context its process was left with.** -/
theorem Ticked.context_eq {cpu cpu' : Cpu} {next : Fin 16} (ht : Ticked L s s' cpu next cpu') (hs : KInv L s)
    (hf : Follows s h) {ctx : Context}
    (hleft : (History.next L s (.tick cpu next cpu') s' h).left i = some ctx) :
    (s'.process_list i).context = ctx := by
  rw [ht.context]
  have hl : (if h.onCpu = some i then
      some (captured cpu L.kernel_esp (paging_get_current_page_directory_addr s.paging)) else h.left i) =
    some ctx := hleft
  split_ifs at hl with hcpu
  · rw [savedContext_of_running hs (hf.onCpu hcpu).2]
    exact Option.some.inj hl
  · have hnr : (s.process_list i).state ≠ RUNNING := fun hrun => by
      rcases hf.running hrun with hj | hnone
      · exact hcpu hj
      · rw [hnone] at hl
        exact absurd hl (by simp)
    rw [savedContext_of_not_running hs hnr]
    exact hf.saved hcpu hl

theorem Ticked.follows {cpu cpu' : Cpu} {next : Fin 16} (ht : Ticked L s s' cpu next cpu') (hs : KInv L s)
    (hf : Follows s h) : Follows s' (History.next L s (.tick cpu next cpu') s' h) where
  saved _ hleft := ht.context_eq hs hf hleft
  onCpu {i} hcpu := by
    obtain rfl := Option.some.inj (show some next = some i from hcpu)
    exact ⟨by rw [ht.list]; exact ht.chosen.1, (ht.running_iff hs).mpr rfl⟩
  running {i} hrun := .inl (congrArg some ((ht.running_iff hs).mp hrun).symm)

end

/-- **A step keeps the control blocks in line with the record.** -/
theorem follows_step {L : Linkage} {s s' : Kernel} {e : Event} {h : History} (hs : KInv L s)
    (hf : Follows s h) (hstep : KStep L s e s') : Follows s' (History.next L s e s' h) := by
  cases e with
  | create r code =>
    rcases create_cases hstep with ⟨-, rfl⟩ | ⟨rfl, p, hc⟩ | ⟨rfl, p, d, hc⟩
    · rw [next_create_refused]
      exact hf
    · exact hc.follows hf
    · exact hc.follows hf
  | destroy pid result =>
    rcases destroy_cases hstep with ⟨rfl, rfl⟩ | ⟨rfl, p, i, -, hd⟩
    · exact hf
    · exact hd.follows hs hf
  | tick cpu next cpu' =>
    obtain ⟨fuel, hstep⟩ := hstep
    exact (tick_cases hstep).follows hs hf

/-! ## The result -/

/-- **Preemption preserves the context.** In every run, a process that the scheduler resumes gets the
registers and the page directory of the context it was left with; if it was preempted in user mode
with a user data segment, these are all the registers it had. -/
theorem resumed_context (L : Linkage) (es : List Event) (s s' : Kernel) (h : History) (cpu cpu' : Cpu)
    (next : Fin 16) (ctx : Context)
    (hrun : Run (recorded (KStep L) (History.next L)) (.initial L, .initial) es (s, h))
    (htick : KStep L s (.tick cpu next cpu') s')
    (hleft : (History.next L s (.tick cpu next cpu') s' h).left next = some ctx) :
    Loads ctx cpu' ∧ s'.paging.cr3 = physical_addr_page_dir ctx.page_directory_virtual_addr ∧
      ∀ cpu₀ esp current, ctx = captured cpu₀ esp current → cpu₀.ds.toUInt32 &&& 0x3 ≠ 0 →
        cpu₀.cs = 0x1B → cpu₀.ss = 0x23 → cpu' = cpu₀ := by
  obtain ⟨hs, hf⟩ := hrun.invariant_recorded (KInv L) Follows (kinv_step L)
    (fun _ _ _ _ => follows_step) (kinv_initial L) (follows_initial L)
  obtain ⟨fuel, htick⟩ := htick
  have ht := tick_cases htick
  have hctx := ht.context_eq hs hf hleft
  rw [ht.context] at hctx
  rw [ht.loaded, ht.paging, use_cr3, hctx]
  refine ⟨process_context_switch_loads ctx, rfl, ?_⟩
  rintro cpu₀ esp current rfl hds hcs hss
  exact switch_capture cpu₀ esp current hds hcs hss

/-- Process 1 is preempted, process 0 creates process 2, and process 1 resumes where it was. -/
theorem resumed_context_back : ∃ es s s' h cpu',
    Run (recorded (KStep someLinkage) (History.next someLinkage)) (.initial someLinkage, .initial) es (s, h) ∧
    KStep someLinkage s (.tick (userCpu 0x20) 1 cpu') s' ∧ s.list_of_process 2 = true ∧
    cpu' = userCpu 0x10 := by
  obtain ⟨es, s, h, hrun, hq⟩ := exists_run (perform someLinkage) perform_step (History.next someLinkage)
    (.initial someLinkage, .initial)
    [.create shellRequest, .create shellRequest, .tick (userCpu 0), .tick (userCpu 0x10), .create shellRequest]
    (fun _ s h =>
      match timer_interrupt someLinkage 16 s (userCpu 0x20) with
      | .ok (next, _, _) => decide (next = 1 ∧ s.list_of_process 2 = true ∧ h.onCpu ≠ some 1 ∧
          h.left 1 = some (captured (userCpu 0x10) someLinkage.kernel_esp (someLinkage.dir 1)))
      | .error _ => false) (by decide +kernel)
  split at hq
  · rename_i next s' cpu' htick
    obtain ⟨rfl, hlive, hcpu, hleft⟩ := of_decide_eq_true hq
    have hstep : KStep someLinkage s (.tick (userCpu 0x20) 1 cpu') s' := ⟨16, htick⟩
    have hback := resumed_context someLinkage es s s' h (userCpu 0x20) cpu' 1 _ hrun hstep
      ((if_neg hcpu).trans hleft)
    exact ⟨es, s, s', h, cpu', hrun, hstep, hlive,
      hback.2.2 (userCpu 0x10) _ _ rfl (by decide) rfl rfl⟩
  · exact absurd hq (by simp)

end KeropOS
