import KeropOS.Fat.Driver
import KeropOS.Proc.Context
import KeropOS.Proc.Paging

/-!
# Processes and the scheduler

`process.c`, `scheduler.c` and the timer case of `main_interrupt_handler`. A process control block
is named by its index in `_process_list`.

* `process_create_user_process`, `process_destroy`;
* `scheduler_switch_to_next_process`, `timer_interrupt`;
* `Event`, `KStep`: the system's steps; `perform`: the same as a function.

The bytes that `read` loads for a new process go to memory that is not modelled: from an address
below `0xC0000000` on, a file of at most 510 clusters ends below the kernel at `0xC0100000`. Its
return code is not looked at. The loop of the scheduler takes its fuel as an argument.
-/

namespace KeropOS

open Packed

/-! ## Data -/

inductive PROCESS_STATE
  | READY
  | RUNNING
  | BLOCKED
  deriving DecidableEq

open PROCESS_STATE

structure ProcessControlBlock where
  pid : UInt32
  name : Bytes 32
  state : PROCESS_STATE
  context : Context
  page_frame_used_count : UInt32

/-- A zeroed control block. -/
def ProcessControlBlock.zero : ProcessControlBlock where
  pid := 0
  name := 0
  state := READY
  context := ⟨⟨0, 0, 0, 0, 0, 0, 0, 0, 0, 0, 0, 0⟩, 0, 0, 0⟩
  page_frame_used_count := 0

/-- Slots have numerals. -/
instance neZero_processes : NeZero 16 := ⟨by decide⟩

/-- `process_manager_state`, `_process_list` and the state of `paging.c`. -/
structure Kernel where
  list_of_process : Fin 16 → Bool
  active_process_count : UInt32
  process_list : Fin 16 → ProcessControlBlock
  paging : Paging

/-- The state at boot. -/
def Kernel.initial (L : Linkage) : Kernel where
  list_of_process _ := false
  active_process_count := 0
  process_list _ := .zero
  paging := .initial L

/-- The part of a `FAT32DriverRequest` that process creation looks at itself. -/
structure ProcessRequest where
  buf : UInt32
  name : Bytes 8
  buffer_size : UInt32

/-- Change one control block. -/
def Kernel.modify (s : Kernel) (i : Fin 16) (f : ProcessControlBlock → ProcessControlBlock) : Kernel :=
  { s with process_list := Function.update s.process_list i (f (s.process_list i)) }

/-! ## Creating and destroying -/

def process_list_get_inactive_index (s : Kernel) : Option (Fin 16) :=
  Fin.find? fun i => !s.list_of_process i

def process_get_current_running_pcb_pointer (s : Kernel) : Option (Fin 16) :=
  Fin.find? fun i => (s.process_list i).state == RUNNING

/-- `GDT_USER_DATA_SEGMENT_SELECTOR | 0x3`. -/
def user_data_segment : UInt32 := 0x20 ||| 0x3

/-- The context set up at creation; the general registers and the other flags stay what they were. -/
def new_context (old : Context) (buf new_page_dir : UInt32) : Context where
  cpu := { old.cpu with
    esp := KERNEL_VIRTUAL_ADDRESS_BASE - 4
    ebp := KERNEL_VIRTUAL_ADDRESS_BASE - 4
    gs := user_data_segment
    fs := user_data_segment
    ds := user_data_segment
    es := user_data_segment }
  eip := buf
  -- `CPU_EFLAGS_BASE_FLAG | CPU_EFLAGS_FLAG_INTERRUPT_ENABLE`
  eflags := old.eflags ||| 0x2 ||| 0x200
  page_directory_virtual_addr := new_page_dir

/-- Mark slot `p` live, and give its control block its number. -/
def claim (s : Kernel) (p : Fin 16) : Kernel :=
  { s with
    list_of_process := Function.update s.list_of_process p true
    active_process_count := s.active_process_count + 1
    process_list := Function.update s.process_list p { s.process_list p with pid := UInt32.ofNat p } }

/-- Map the program's page and the stack's page, in the new directory. -/
def map_pages (L : Linkage) (paging : Paging) (new_page_dir : Fin 32) (buf : UInt32) : Paging :=
  let prev_page_dir := paging_get_current_page_directory_addr paging
  let paging := paging_use_page_directory paging (L.dir new_page_dir)
  let paging := (paging_allocate_user_page_frame paging new_page_dir buf).2
  let paging := (paging_allocate_user_page_frame paging new_page_dir 0xBFFFFFFC).2
  paging_use_page_directory paging prev_page_dir

/-- The executable and one frame for the stack. -/
def page_frame_count_needed (buffer_size : UInt32) : ℕ :=
  ceil_div (buffer_size + PAGE_FRAME_SIZE) PAGE_FRAME_SIZE

def process_create_user_process (L : Linkage) (s : Kernel) (request : ProcessRequest) :
    Except Trap (ℤ × Kernel) :=
  if s.active_process_count.toNat ≥ 16 then .ok (1, s)
  else if request.buf ≥ KERNEL_VIRTUAL_ADDRESS_BASE then .ok (2, s)
  else if !paging_allocate_check s.paging (page_frame_count_needed request.buffer_size) ||
      page_frame_count_needed request.buffer_size > 8 then .ok (3, s)
  else
    match process_list_get_inactive_index s with
    | none => .error .outOfBounds
    | some p_index =>
      let s := claim s p_index
      match paging_create_new_page_directory s.paging with
      | none => .ok (3, s)
      | some (new_page_dir, paging) =>
        .ok (0, { s with paging := map_pages L paging new_page_dir request.buf }.modify p_index
          fun new_pcb => { new_pcb with
            state := READY
            page_frame_used_count := 0
            context := new_context new_pcb.context request.buf (L.dir new_page_dir)
            name := fun i => if h : i.val < 8 then request.name ⟨i, h⟩ else 0 })

/-- The control block that `process_destroy` finds: the last of the 16 with the number. -/
def pcb_with_pid (s : Kernel) (pid : UInt32) : Option (Fin 16) :=
  Fin.findRev? fun i => (s.process_list i).pid == pid

def process_destroy (L : Linkage) (s : Kernel) (pid : UInt32) : Except Trap (Bool × Kernel) :=
  if h : pid.toNat < 16 then
    if !s.list_of_process ⟨pid.toNat, h⟩ then .ok (false, s)
    else
      match pcb_with_pid s pid with
      | none => .error .outOfBounds
      | some pcb =>
        let page_dir := (s.process_list pcb).context.page_directory_virtual_addr
        let s := s.modify pcb fun b => { b with state := READY }
        .ok (true, { s with
          paging := (paging_free_page_directory L s.paging page_dir).2
          list_of_process := Function.update s.list_of_process ⟨pid.toNat, h⟩ false
          active_process_count := s.active_process_count - 1 })
  else .ok (false, s)

/-! ## The scheduler -/

def scheduler_save_context_to_current_running_pcb (s : Kernel) (ctx : Context) : Kernel :=
  match process_get_current_running_pcb_pointer s with
  | some pcb => s.modify pcb fun b => { b with state := RUNNING, context := ctx }
  | none => s

/-- `pid`, or 0 past the end of the list. -/
def wrap (pid : ℕ) : Fin 16 := if h : pid < 16 then ⟨pid, h⟩ else 0

/-- The search loop of the scheduler; one unit of fuel for each test of its condition. -/
def find_next_process (list_of_process : Fin 16 → Bool) : (fuel : ℕ) → (next_pid : Fin 16) → Option (Fin 16)
  | 0, _ => none
  | fuel + 1, next_pid =>
    if list_of_process next_pid = false then find_next_process list_of_process fuel (wrap (next_pid + 1))
    else some next_pid

/-- The slot chosen, the state and the registers loaded. -/
def scheduler_switch_to_next_process (fuel : ℕ) (s : Kernel) : Except Trap (Fin 16 × Kernel × Cpu) :=
  let pcb := (process_get_current_running_pcb_pointer s).getD 0
  let current_pid := (s.process_list pcb).pid
  let s := s.modify pcb fun b => { b with state := READY }
  match find_next_process s.list_of_process fuel (wrap (current_pid + 1).toNat) with
  | none => .error .outOfFuel
  | some next_pid =>
    let s := s.modify next_pid fun b => { b with state := RUNNING }
    let ctx := (s.process_list next_pid).context
    .ok (next_pid, { s with paging := paging_use_page_directory s.paging ctx.page_directory_virtual_addr },
      process_context_switch ctx)

/-- A timer interrupt of user code with the registers `cpu`. At boot the first switch has no
interrupt before it; no control block is `RUNNING` then, so nothing is saved. -/
def timer_interrupt (L : Linkage) (fuel : ℕ) (s : Kernel) (cpu : Cpu) : Except Trap (Fin 16 × Kernel × Cpu) :=
  let current := paging_get_current_page_directory_addr s.paging
  let ctx := captured cpu L.kernel_esp current
  scheduler_switch_to_next_process fuel (scheduler_save_context_to_current_running_pcb s ctx)

/-! ## Steps -/

/-- What happens, with what comes of it: a return code, a result, or the slot chosen and the
registers loaded. -/
inductive Event
  | create (request : ProcessRequest) (code : ℤ)
  | destroy (pid : UInt32) (result : Bool)
  | tick (cpu : Cpu) (next : Fin 16) (cpu' : Cpu)

def Event.isTick : Event → Bool
  | .tick _ _ _ => true
  | _ => false

/-- One step of the kernel. -/
def KStep (L : Linkage) (s : Kernel) : Event → Kernel → Prop
  | .create r code, s' => process_create_user_process L s r = .ok (code, s')
  | .destroy pid result, s' => process_destroy L s pid = .ok (result, s')
  | .tick cpu next cpu', s' => ∃ fuel, timer_interrupt L fuel s cpu = .ok (next, s', cpu')

/-- What is asked of the kernel. -/
inductive Action
  | create (request : ProcessRequest)
  | destroy (pid : UInt32)
  | tick (cpu : Cpu)

/-- One step, as a function. A tick gives the scheduler's loop one round of fuel. -/
def perform (L : Linkage) (s : Kernel) : Action → Except Trap (Event × Kernel)
  | .create r => (process_create_user_process L s r).map fun (code, s') => (.create r code, s')
  | .destroy pid => (process_destroy L s pid).map fun (result, s') => (.destroy pid result, s')
  | .tick cpu => (timer_interrupt L 16 s cpu).map fun (next, s', cpu') => (.tick cpu next cpu', s')

end KeropOS
