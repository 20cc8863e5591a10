import KeropOS.Device.Clock
import KeropOS.Device.Keyboard
import KeropOS.Fat.Calls
import KeropOS.Fat.PowerCycle
import KeropOS.System.Listing
import KeropOS.System.VirtualMemory

/-!
# The machine

`kernel_setup`, the system calls of `interrupt.c`, and the interrupts, with the memory that programs
run in. A system call reads its arguments in the memory of the process that makes it, and stores its
results there.

* `Machine`: the file system, the kernel, the memory, the keyboard and the screen;
* `create_process`: process creation with the program that it loads;
* `syscall`: the system calls; `kernel_setup`: the start;
* `Machine.Follows`, `Machine.Strays`: what happens to the machine, and when anything may; `Machine.Step`;
* `Machine.Careful`: the steps in which a process keeps to its own memory.

The kernel checks no pointer. A system call that reads or stores outside the pages of user code has no
`Effect`; it may have changed the kernel. The same goes for a machine that has loaded no page directory.
-/

namespace KeropOS

open PROCESS_STATE Translation Packed

/-! ## Data -/

structure Machine where
  fs : Fs
  kernel : Kernel
  ram : Ram
  keyboard : Keys.Keyboard
  screen : Screen.Terminal

/-- `struct FAT32DriverRequest`, in the memory of a program. -/
structure UserRequest where
  buf : UInt32
  name : Bytes 8
  ext : Bytes 3
  parent_cluster_number : UInt32
  buffer_size : UInt32

def requestEquiv : UInt32 × Bytes 8 × Bytes 3 × UInt32 × UInt32 ≃ UserRequest where
  toFun x := ⟨x.1, x.2.1, x.2.2.1, x.2.2.2.1, x.2.2.2.2⟩
  invFun r := ⟨r.buf, r.name, r.ext, r.parent_cluster_number, r.buffer_size⟩
  left_inv _ := rfl
  right_inv _ := rfl

/-- The struct is packed. -/
def requestLayout : Layout UserRequest 23 :=
  (u32.pair ((bytes 8).pair ((bytes 3).pair (u32.pair u32)))).map requestEquiv

namespace UserRequest

/-- The request as process creation sees it. -/
def process (r : UserRequest) : ProcessRequest := ⟨r.buf, r.name, r.buffer_size⟩

/-- The request as the driver sees it, with the memory behind `buf`. -/
def driver (r : UserRequest) (buf : Buffer) : FAT32DriverRequest :=
  ⟨buf, r.name, r.ext, r.parent_cluster_number, r.buffer_size⟩

end UserRequest

/-! ## The memory of a program -/

/-- The memory from an address on, of which the first `n` bytes are accessed. -/
def fetch (p : UInt32 → Option UInt8) (virtual_addr : UInt32) (n : ℕ) : Option Buffer :=
  if ∀ a < n, (p (virtual_addr + UInt32.ofNat a)).isSome = true then
    some fun a => (p (virtual_addr + UInt32.ofNat a)).getD 0
  else none

def fetchRequest (p : UInt32 → Option UInt8) (virtual_addr : UInt32) : Option UserRequest :=
  (fetch p virtual_addr 23).map fun b => requestLayout.decode fun i => b i

/-- The call stores a byte at `a`: what is there afterwards does not depend on what was there before. -/
def storesAt (f : Buffer → Option Buffer) (a : ℕ) : Bool :=
  match f fun _ => 0, f fun _ => 1 with
  | some b, some b' => b a == b' a
  | _, _ => false

/-- What a call that leaves `result` stores in the first `n` bytes from `buf` on. -/
def bufferStores (f : Buffer → Option Buffer) (buf : UInt32) (result : Buffer) (n : ℕ) :
    List (UInt32 × UInt8) :=
  ((List.range n).filter fun a => storesAt f a).map fun a => (buf + UInt32.ofNat a, result a)

/-- The clusters that `read` may store, in bytes. -/
def readRoom (buffer_size : UInt32) : ℕ := (buffer_size.toNat + 2047) % 2 ^ 32 / 2048 * 2048

/-- A word in memory. -/
def wordBytes (w : UInt32) : List UInt8 := List.ofFn (u32.encode w)

/-- A state as the C enumeration numbers it. -/
def PROCESS_STATE.number : PROCESS_STATE → UInt32
  | READY => 0
  | RUNNING => 1
  | BLOCKED => 2

/-- `struct ProcessControlBlock` in memory. No code sets `virtual_addr_used`. -/
def ProcessControlBlock.bytes (pcb : ProcessControlBlock) : List UInt8 :=
  wordBytes pcb.pid ++ List.ofFn pcb.name ++ wordBytes pcb.state.number ++
    pcb.context.words.flatMap wordBytes ++ List.replicate 32 0 ++ wordBytes pcb.page_frame_used_count

/-- The memory of slot `i`. -/
def Machine.view (L : Linkage) (m : Machine) (i : Fin 16) : UInt32 → Option UInt8 :=
  Translation.view (m.kernel.space L i) m.ram

/-- The memory that CR3 has loaded. -/
def Machine.current_view (L : Linkage) (m : Machine) : UInt32 → Option UInt8 :=
  Translation.view (m.kernel.current_space L) m.ram

/-! ## Process creation -/

/-- What `read` makes of the memory behind `buf`. -/
def fileInto (fs : Fs) (r : UserRequest) (buf : Buffer) : Option Buffer :=
  match read fs (r.driver buf) with
  | .ok (_, result) => some result
  | .error _ => none

/-- `read(request)`, with the directory at `page_dir`; its return code is not looked at. -/
def load (L : Linkage) (fs : Fs) (paging : Paging) (page_dir : UInt32) (r : UserRequest) (ram : Ram) :
    Option Ram :=
  let p := Translation.view (space L paging page_dir) ram
  (fileInto fs r fun a => (p (r.buf + UInt32.ofNat a)).getD 0).bind fun result =>
    pokes (space L paging page_dir) ram (bufferStores (fileInto fs r) r.buf result (readRoom r.buffer_size))

/-- `process_create_user_process`, with the program it loads. -/
def create_process (L : Linkage) (m : Machine) (r : UserRequest) : Option (ℤ × Machine) :=
  match process_create_user_process L m.kernel r.process with
  | .error _ => none
  | .ok (code, kernel) =>
    if code = 0 then
      (paging_create_new_page_directory m.kernel.paging).bind fun (new_page_dir, _) =>
        (load L m.fs kernel.paging (L.dir new_page_dir) r m.ram).map fun ram =>
          (code, { m with kernel := kernel, ram := ram })
    else some (code, { m with kernel := kernel })

/-! ## The picture -/

namespace Screen

def DARK_GREEN : UInt8 := 0x02
def DARK_GRAY : UInt8 := 0x08

/-- Spaces in one colour, at rows and columns. -/
def paint (bg : UInt8) (places : List (UInt8 × UInt8)) (t : Terminal) : Terminal :=
  places.foldl (fun t place => framebuffer_write t place.1 place.2 32 WHITE bg) t

/-- The places of the bar. -/
def bar : List (UInt8 × UInt8) :=
  (List.range 20).flatMap fun i => [11, 12, 13].map fun row => (row, UInt8.ofNat (i + 30))

/-- Case 22: a bar in two colours, and two letters with their shadows. -/
def splash (t : Terminal) : Terminal :=
  let t := paint DARK_GRAY bar t
  let t := framebuffer_clear (paint YELLOW bar t)
  let t := paint YELLOW [(7, 30), (8, 30), (9, 30), (10, 30), (11, 30), (12, 30), (13, 30), (7, 31), (8, 31),
    (9, 31), (10, 31), (11, 31), (12, 31), (13, 31)] t
  let t := paint DARK_GREEN [(7, 32), (8, 32), (9, 32), (11, 32), (12, 32), (13, 32), (14, 32), (14, 31),
    (14, 30)] t
  let t := paint YELLOW [(10, 32), (10, 33), (10, 34), (10, 35), (10, 36)] t
  let t := paint DARK_GREEN [(11, 32), (11, 33), (11, 34), (11, 35), (11, 36)] t
  let t := paint YELLOW [(7, 35), (8, 35), (9, 35), (10, 35), (11, 35), (12, 35), (13, 35), (7, 36), (8, 36),
    (9, 36), (10, 36), (11, 36), (12, 36), (13, 36)] t
  let t := paint DARK_GREEN [(7, 37), (8, 37), (9, 37), (10, 37), (11, 37), (12, 37), (13, 37), (14, 37),
    (14, 36), (14, 35)] t
  let t := paint YELLOW [(7, 40), (8, 40), (9, 40), (10, 40), (11, 40), (12, 40), (13, 40), (7, 41), (8, 41),
    (9, 41), (10, 41), (11, 41), (12, 41), (13, 41)] t
  paint DARK_GREEN [(7, 42), (8, 42), (9, 42), (10, 42), (11, 42), (12, 42), (13, 42), (13, 42), (14, 42),
    (14, 41), (14, 40)] t

end Screen

/-! ## System calls -/

/-- What a system call does: the machine without the stores in the memory of the process, these stores, and
the call of the driver it makes. -/
structure Effect where
  after : Machine
  stores : List (UInt32 × UInt8) := []
  call : Option (Call × Reply) := none

section

variable (L : Linkage) (fuel : ℕ) (newDir : FAT32DirectoryTable) (m : Machine) (p : UInt32 → Option UInt8)

/-- A call of the driver with the request at `ebx`, and its return code for `ecx`. It may read `reads` bytes
of the buffer, and store `room` bytes there. -/
def driver_call (ebx ecx : UInt32) (call : FAT32DriverRequest → Call) (reads room : UInt32 → ℕ) :
    Option Effect :=
  (fetchRequest p ebx).bind fun r =>
    (fetch p r.buf (reads r.buffer_size)).bind fun buf =>
      match execOn newDir fuel m.fs (call (r.driver buf)) with
      | .error _ => none
      | .ok (reply, fs) =>
        let result (buf : Buffer) : Option Buffer :=
          match execOn newDir fuel m.fs (call (r.driver buf)) with
          | .error _ => none
          | .ok (reply, _) => some reply.buf
        some
          { after := { m with fs := fs }
            stores := bufferStores result r.buf reply.buf (room r.buffer_size) ++
              [(ecx, UInt8.ofInt reply.code)]
            call := some (call (r.driver buf), reply) }

/-- Case 10: `read_clusters`, of one cluster. -/
def read_clusters_call (ebx ecx : UInt32) : Effect where
  after := m
  stores := (List.finRange 2048).map fun (i : Fin 2048) =>
    (ebx + UInt32.ofNat i, read_clusters m.fs.disk ecx i)

/-- Case 11: `write_clusters`, of one cluster. -/
def write_clusters_call (ebx ecx : UInt32) : Option Effect :=
  (fetch p ebx 2048).map fun buf =>
    { after := { m with fs := { m.fs with disk := write_clusters m.fs.disk (fun i => buf i) ecx } } }

/-- Case 15: the control block of the process that runs. Without one the kernel reads through `NULL`. -/
def pcb_call (ebx : UInt32) : Option Effect :=
  (process_get_current_running_pcb_pointer m.kernel).map fun i =>
    { after := m
      stores := (m.kernel.process_list i).bytes.zipIdx.map fun x => (ebx + UInt32.ofNat x.2, x.1) }

/-- Case 18: the time. -/
def clock_call (rtc : UInt8 → UInt8) (ebx ecx edx : UInt32) : Effect where
  after := m
  stores := [(edx, (Screen.read_CMOS rtc).second), (ecx, (Screen.read_CMOS rtc).minute),
    (ebx, (Screen.read_CMOS rtc).hour)]

/-- Case 19: the time on the screen. -/
def putTime_call (ebx ecx edx : UInt32) : Option Effect :=
  (fetch p ebx 2).bind fun hour => (fetch p ecx 2).bind fun min => (fetch p edx 2).map fun sec =>
    { after :=
        { m with screen := Screen.putTime m.screen (fun i => hour i) (fun i => min i) (fun i => sec i) 58 } }

/-- The clock wiped off the screen. -/
def wipeClock (t : Screen.Terminal) : Screen.Terminal :=
  Screen.putTime t (fun _ => 32) (fun _ => 32) (fun _ => 32) 32

theorem slot_lt {index : ℤ} (h : 0 ≤ index ∧ index < 16) : index.toNat < 16 := by omega

/-- The process looked at by `kill` is named `"clock"`. -/
def killsClock (s : Kernel) (arg : Buffer) : Bool :=
  let index := (piddd arg).toInt8.toInt
  if h : 0 ≤ index ∧ index < 16 then
    (strcmp (List.ofFn (s.process_list ⟨index.toNat, slot_lt h⟩).name) (cstring (ascii "clock"))).any
      fun difference => decide (difference = 0)
  else false

/-- Case 21: `kill`. `is_clock` is what the variable holds that is set for the clock only. -/
def kill_call (is_clock : Bool) (ebx : UInt32) : Option Effect :=
  (fetch p ebx 2).bind fun arg =>
    match syscall_kill L m.kernel arg with
    | .error _ => none
    | .ok (message, kernel) =>
      let gone : Bool := message = "Proses Berhasil dihapus!\n"
      let screen := putText m.screen message (UInt8.ofNat message.length) (if gone then GREEN else RED)
      let screen := if gone && (is_clock || killsClock m.kernel arg) then wipeClock screen else screen
      some { after := { m with kernel := kernel, screen := screen } }

/-- The request of case 16, for the clock. -/
def clockreq : UserRequest where
  buf := 0
  name := ![99, 108, 111, 99, 107, 0, 0, 0]
  ext := 0
  parent_cluster_number := ROOT_CLUSTER_NUMBER
  buffer_size := 0x800

/-- `syscall`. `newDir` is what the stack holds when `write` makes a folder, `rtc` the real-time clock, and
`is_clock` a variable of case 21. -/
def syscall (rtc : UInt8 → UInt8) (is_clock : Bool) (eax ebx ecx edx : UInt32) : Option Effect :=
  match eax.toNat with
  | 0 => driver_call fuel newDir m p ebx ecx .read (fun _ => 0) readRoom
  | 1 => driver_call fuel newDir m p ebx ecx .read_directory (fun _ => 0) fun _ => 2048
  | 2 => driver_call fuel newDir m p ebx ecx .write UInt32.toNat fun _ => 0
  | 3 => driver_call fuel newDir m p ebx ecx .delete (fun _ => 0) fun _ => 0
  | 4 =>
    some
      { after := { m with keyboard := (Keys.get_keyboard_buffer m.keyboard).2 }
        stores := [(ebx + ecx, (Keys.get_keyboard_buffer m.keyboard).1)] }
  | 5 => (p ebx).map fun kata => { after := { m with screen := Screen.putchar m.screen kata ecx.toUInt8 } }
  | 6 =>
    (fetch p ebx ecx.toUInt8.toNat).map fun text =>
      { after := { m with screen := Screen.puts m.screen text ecx.toUInt8 edx.toUInt8 } }
  | 7 => some { after := { m with keyboard := Keys.keyboard_state_activate m.keyboard } }
  | 8 => some { after := { m with keyboard := Keys.keyboard_state_deactivate m.keyboard } }
  | 9 =>
    some
      { after :=
          { m with screen := Screen.framebuffer_set_cursor (Screen.framebuffer_clear m.screen) 0 0 } }
  | 10 => some (read_clusters_call m ebx ecx)
  | 11 => write_clusters_call m p ebx ecx
  | 12 => driver_call fuel newDir m p ebx ecx .delete (fun _ => 0) fun _ => 0
  | 13 =>
    (fetchRequest p ebx).bind fun r => (create_process L m r).map fun (code, m') =>
      { after := m', stores := [(ecx, UInt8.ofInt code)] }
  | 14 =>
    match process_destroy L m.kernel ebx with
    | .error _ => none
    | .ok (result, kernel) =>
      some { after := { m with kernel := kernel }, stores := [(ecx, if result then 1 else 0)] }
  | 15 => pcb_call m ebx
  | 16 => (create_process L m clockreq).map fun (_, m') => { after := m' }
  | 17 => some { after := m, stores := [(ebx, rtc 0x0A &&& 0x80)] }
  | 18 => some (clock_call m rtc ebx ecx edx)
  | 19 => putTime_call m p ebx ecx edx
  | 20 => (ps m.screen m.kernel).map fun screen => { after := { m with screen := screen } }
  | 21 => kill_call L m p is_clock ebx
  | 22 => some { after := { m with screen := Screen.splash m.screen } }
  | _ => some { after := m }

end

/-! ## The start -/

/-- The request of `kernel_setup`, for the shell. -/
def shellreq : UserRequest where
  buf := 0
  name := ![115, 104, 101, 108, 108, 0, 0, 0]
  ext := 0
  parent_cluster_number := ROOT_CLUSTER_NUMBER
  buffer_size := 0x100000

/-- The machine before the shell is created: any drive, memory and screen, and nothing has run. -/
def Machine.initial (L : Linkage) (d : Disk) (ram : Ram) (screen : Screen.Terminal) : Machine where
  fs := mount d
  kernel := .initial L
  ram := ram
  keyboard := ⟨false, 0, false, false, []⟩
  screen := Screen.framebuffer_set_cursor (Screen.framebuffer_clear screen) 0 0

/-- `kernel_setup`, to the first switch. -/
def kernel_setup (L : Linkage) (fuel : ℕ) (d : Disk) (ram : Ram) (screen : Screen.Terminal) :
    Option Machine :=
  (create_process L (.initial L d ram screen) shellreq).bind fun (_, m) =>
    match scheduler_switch_to_next_process fuel m.kernel with
    | .error _ => none
    | .ok (_, kernel, _) => some { m with kernel := kernel }

/-! ## Steps -/

/-- What reaches the machine. -/
inductive Input
  | store (virtual_addr : UInt32) (value : UInt8)
  | syscall (eax ebx ecx edx : UInt32)
  | timer (cpu : Cpu)
  | keyboard (scancode : UInt8)

/-- A step with what it stores in the memory of the process that runs, and the call of the driver it makes. -/
structure Happening where
  input : Input
  stores : List (UInt32 × UInt8) := []
  call : Option (Call × Reply) := none

/-- The process in slot `i` runs. -/
def Machine.Runs (m : Machine) (i : Fin 16) : Prop := (m.kernel.process_list i).state = RUNNING

namespace Machine

variable (L : Linkage)

/-- The stores of the code that runs. -/
def Stored (m : Machine) (ws : List (UInt32 × UInt8)) (m' : Machine) : Prop :=
  ∃ ram, pokes (m.kernel.current_space L) m.ram ws = some ram ∧ m' = { m with ram := ram }

/-- CR3 has a page directory loaded. -/
def Loaded (m : Machine) : Prop := ∃ k, paging_get_current_page_directory_addr m.kernel.paging = L.dir k

/-- What happens to the machine. A store outside the pages of user code faults for ever, and is none. -/
def Follows (m : Machine) (h : Happening) (m' : Machine) : Prop :=
  match h.input with
  | .store virtual_addr value => h.stores = [(virtual_addr, value)] ∧ h.call = none ∧ Stored L m h.stores m'
  | .syscall eax ebx ecx edx => ∃ fuel newDir rtc is_clock after,
      syscall L fuel newDir m (m.current_view L) rtc is_clock eax ebx ecx edx =
        some ⟨after, h.stores, h.call⟩ ∧
        Stored L after h.stores m'
  | .timer cpu =>
    h.stores = [] ∧ h.call = none ∧ ∃ fuel next kernel cpu',
      timer_interrupt L fuel m.kernel cpu = .ok (next, kernel, cpu') ∧ m' = { m with kernel := kernel }
  | .keyboard scancode =>
    h.stores = [] ∧ h.call = none ∧ m' = { m with keyboard := Keys.keyboard_isr m.keyboard scancode }

/-- Anything may happen: no page directory is loaded, or a system call goes outside the pages of user code,
with some contents of the kernel's stack and some time. -/
def Strays (m : Machine) (input : Input) : Prop :=
  ¬ m.Loaded L ∨
    match input with
    | .syscall eax ebx ecx edx => ∃ newDir rtc is_clock, ∀ fuel effect m',
        syscall L fuel newDir m (m.current_view L) rtc is_clock eax ebx ecx edx = some effect →
          ¬ Stored L effect.after effect.stores m'
    | _ => False

/-- One step. -/
def Step (m : Machine) (h : Happening) (m' : Machine) : Prop := m.Follows L h m' ∨ m.Strays L h.input

/-- The memory that is loaded is that of the process that runs, or of no live one: a process that is destroyed
runs on until the next timer interrupt. -/
def Unshared (m : Machine) : Prop :=
  (∃ i, m.Runs i) ∨ ∀ i, m.kernel.list_of_process i = true →
    m.kernel.dirOf i ≠ paging_get_current_page_directory_addr m.kernel.paging

/-- The code that runs has a memory of its own, if it is to store anything. -/
def Owns (m : Machine) : Input → Prop
  | .store _ _ => m.Unshared
  | .syscall _ _ _ _ => m.Unshared
  | .timer _ => True
  | .keyboard _ => True

/-- A step in which the code that runs keeps to its own memory. -/
structure Careful (m : Machine) (h : Happening) (m' : Machine) : Prop where
  step : m.Step L h m'
  stays : ¬ m.Strays L h.input
  owns : m.Owns h.input

variable {L} {m m' : Machine} {h : Happening}

theorem Careful.loaded (hc : m.Careful L h m') : m.Loaded L :=
  not_not.mp fun hnone => hc.stays (.inl hnone)

theorem Careful.follows (hc : m.Careful L h m') : m.Follows L h m' := hc.step.resolve_right hc.stays

end Machine

end KeropOS
