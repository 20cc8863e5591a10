import Mathlib.Data.UInt
import Mathlib.Tactic.Ring
import KeropOS.Cpu.Descriptors
import KeropOS.Proc.Context

/-!
# Interrupts, in and out

The 64 stubs of `intsetup.s`: what the CPU pushes, what the stub adds, the frame that
`main_interrupt_handler` is given, and the way back through `popad`, the segment registers and
`iret`.

* `Stack`, `raise`, `isr_stub`, `pushFrame`, `resume`;
* **`interrupt_transparent`**: the frame of every vector, and every register back;
* `main_interrupt_handler`: what serves a vector; **`user_interrupt`**: what `int n` in user code does.
-/

namespace KeropOS

open scoped UInt32.CommRing

/-- A stack: the address of its top, and the words from there on. -/
structure Stack where
  esp : UInt32
  words : List UInt32
  deriving DecidableEq

def Stack.push (s : Stack) (w : UInt32) : Stack := ⟨s.esp - 4, w :: s.words⟩

/-- The code runs in a ring outside the kernel's. -/
def Cpu.IsUser (cpu : Cpu) : Prop := cpu.cs.toUInt32 &&& 0x3 ≠ 0

instance (cpu : Cpu) : Decidable cpu.IsUser := by unfold Cpu.IsUser; infer_instance

/-! ## On the way in -/

/-- What the CPU pushes when it leaves the code with the registers `cpu`: on the empty stack at
`esp0`, or for the kernel's own code on the stack it is on. -/
def raise (esp0 : UInt32) (cpu : Cpu) (words : List UInt32) (error : Option UInt32) : Stack :=
  let s : Stack :=
    if cpu.IsUser then ((Stack.mk esp0 []).push cpu.ss.toUInt32).push cpu.esp else ⟨cpu.esp, words⟩
  let s := ((s.push cpu.eflags).push cpu.cs.toUInt32).push cpu.eip
  match error with
  | none => s
  | some code => s.push code

/-- The stubs made by `error_code_interrupt_handler`. -/
def error_code_vectors : List ℕ := [8, 10, 11, 12, 13, 14, 17, 30]

/-- `interrupt_handler_n`. -/
def isr_stub (n : ℕ) (s : Stack) : Stack :=
  if n ∈ error_code_vectors then s.push (UInt32.ofNat n) else (s.push 0).push (UInt32.ofNat n)

/-- `call_generic_handler` up to the call: four segment registers and the eight of `pushad`. -/
def pushFrame (cpu : Cpu) (s : Stack) : Stack :=
  ⟨s.esp - 48, call_generic_handler cpu (s.esp - 16) s.words⟩

/-- The stack that `main_interrupt_handler` is called on. -/
def interrupted (n : ℕ) (esp0 : UInt32) (cpu : Cpu) (words : List UInt32) (error : Option UInt32) : Stack :=
  pushFrame cpu (isr_stub n (raise esp0 cpu words error))

/-! ## On the way out -/

/-- `popad`, which skips `esp`, the segment registers, `add esp, 8` and `iret`, which also pops
`esp` and `ss` when it leaves the kernel. `ss` is the stack segment in the kernel. -/
def resume (ss : UInt16) (s : Stack) : Cpu × Stack :=
  let cpu : Cpu :=
    { edi := word s.words 0
      esi := word s.words 4
      ebp := word s.words 8
      esp := s.esp + 68
      ebx := word s.words 16
      edx := word s.words 20
      ecx := word s.words 24
      eax := word s.words 28
      gs := (word s.words 32).toUInt16
      fs := (word s.words 36).toUInt16
      es := (word s.words 40).toUInt16
      ds := (word s.words 44).toUInt16
      eip := word s.words 56
      cs := (word s.words 60).toUInt16
      eflags := word s.words 64
      ss := ss }
  if cpu.IsUser then
    ({ cpu with esp := word s.words 68, ss := (word s.words 72).toUInt16 },
      ⟨s.esp + 76, s.words.drop 19⟩)
  else (cpu, ⟨s.esp + 68, s.words.drop 17⟩)

/-! ## There and back -/

variable {n : ℕ} {esp0 : UInt32} {cpu : Cpu} {words : List UInt32} {error : Option UInt32}

/-- The words under the frame's registers, whether or not the CPU pushed an error code. -/
theorem isr_stub_words (h : error.isSome = true ↔ n ∈ error_code_vectors) :
    (isr_stub n (raise esp0 cpu words error)).words =
      UInt32.ofNat n :: error.getD 0 :: (raise esp0 cpu words none).words := by
  unfold isr_stub
  cases error with
  | none =>
    rw [if_neg (h.not.mp (by simp))]
    rfl
  | some code =>
    rw [if_pos (h.mp rfl)]
    rfl

theorem isr_stub_esp (h : error.isSome = true ↔ n ∈ error_code_vectors) :
    (isr_stub n (raise esp0 cpu words error)).esp = (raise esp0 cpu words none).esp - 8 := by
  unfold isr_stub
  cases error with
  | none =>
    rw [if_neg (h.not.mp (by simp))]
    simp only [Stack.push]
    ring
  | some code =>
    rw [if_pos (h.mp rfl)]
    simp only [Stack.push, raise]
    ring

/-- `esp` in the frame: what `pushad` stored, or with a user data segment the word the stub takes
from the place where the CPU pushes that of user code. -/
def frameEsp (cpu : Cpu) (s : Stack) : UInt32 :=
  if cpu.ds.toUInt32 &&& 0x3 = 0 then s.esp - 16 else s.words.getD 5 0

/-- The words of the frame. -/
theorem pushFrame_words (cpu : Cpu) (s : Stack) :
    (pushFrame cpu s).words =
      cpu.edi :: cpu.esi :: cpu.ebp :: frameEsp cpu s :: cpu.ebx :: cpu.edx :: cpu.ecx :: cpu.eax ::
        cpu.gs.toUInt32 :: cpu.fs.toUInt32 :: cpu.es.toUInt32 :: cpu.ds.toUInt32 :: s.words := by
  have hds (esp : UInt32) : word (cpu.eax :: cpu.eflags :: cpu.edi :: cpu.esi :: cpu.ebp :: esp ::
      cpu.ebx :: cpu.edx :: cpu.ecx :: cpu.eax :: cpu.gs.toUInt32 :: cpu.fs.toUInt32 ::
      cpu.es.toUInt32 :: cpu.ds.toUInt32 :: s.words) 52 = cpu.ds.toUInt32 := rfl
  unfold pushFrame frameEsp call_generic_handler
  simp only [hds]
  by_cases h : cpu.ds.toUInt32 &&& 0x3 = 0
  · rw [if_pos h, if_pos h]
    rfl
  · rw [if_neg h, if_neg h]
    rfl

/-- The words that the CPU pushes, without an error code. -/
theorem raise_words : (raise esp0 cpu words none).words =
    cpu.eip :: cpu.cs.toUInt32 :: cpu.eflags ::
      (if cpu.IsUser then [cpu.esp, cpu.ss.toUInt32] else words) := by
  unfold raise
  by_cases h : cpu.IsUser
  · rw [if_pos h, if_pos h]
    rfl
  · rw [if_neg h, if_neg h]
    rfl

theorem raise_esp (words : List UInt32) : (raise esp0 cpu words none).esp =
    if cpu.IsUser then esp0 - 20 else cpu.esp - 12 := by
  unfold raise
  by_cases h : cpu.IsUser
  · rw [if_pos h, if_pos h]
    simp only [Stack.push]
    ring
  · rw [if_neg h, if_neg h]
    simp only [Stack.push]
    ring

/-- The words of the stack at the call, from the frame on. -/
theorem interrupted_words (h : error.isSome = true ↔ n ∈ error_code_vectors) (esp0 : UInt32) (cpu : Cpu)
    (words : List UInt32) :
    ∃ esp, (interrupted n esp0 cpu words error).words =
      cpu.edi :: cpu.esi :: cpu.ebp :: esp :: cpu.ebx :: cpu.edx :: cpu.ecx :: cpu.eax ::
        cpu.gs.toUInt32 :: cpu.fs.toUInt32 :: cpu.es.toUInt32 :: cpu.ds.toUInt32 ::
        UInt32.ofNat n :: error.getD 0 :: cpu.eip :: cpu.cs.toUInt32 :: cpu.eflags ::
        (if cpu.IsUser then [cpu.esp, cpu.ss.toUInt32] else words) ∧
      (cpu.IsUser → cpu.ds.toUInt32 &&& 0x3 ≠ 0 → esp = cpu.esp) := by
  refine ⟨frameEsp cpu (isr_stub n (raise esp0 cpu words error)), ?_, ?_⟩
  · rw [interrupted, pushFrame_words, isr_stub_words h, raise_words]
  · intro hu hds
    rw [frameEsp, if_neg hds, isr_stub_words h, raise_words, if_pos hu]
    rfl

/-- The frame that the handler is due: the stub's number, the error code, and the registers. -/
def dueFrame (n : ℕ) (error : Option UInt32) (cpu : Cpu) (esp : UInt32) : InterruptFrame where
  cpu := ⟨cpu.edi, cpu.esi, cpu.ebp, esp, cpu.ebx, cpu.edx, cpu.ecx, cpu.eax, cpu.gs.toUInt32,
    cpu.fs.toUInt32, cpu.es.toUInt32, cpu.ds.toUInt32⟩
  int_number := UInt32.ofNat n
  error_code := error.getD 0
  eip := cpu.eip
  cs := cpu.cs.toUInt32
  eflags := cpu.eflags

/-- **The frame of an interrupt.** Every stub hands over its own number, the error code if there is
one, and the registers of the code that was interrupted; of user code with a user data segment, its
stack pointer too. -/
theorem frame_of_interrupt (h : error.isSome = true ↔ n ∈ error_code_vectors) (esp0 : UInt32) (cpu : Cpu)
    (words : List UInt32) :
    ∃ esp, InterruptFrame.ofStack (interrupted n esp0 cpu words error).words =
        dueFrame n error cpu esp ∧
      (cpu.IsUser → cpu.ds.toUInt32 &&& 0x3 ≠ 0 → esp = cpu.esp) := by
  obtain ⟨esp, hwords, hesp⟩ := interrupted_words h esp0 cpu words
  exact ⟨esp, by rw [hwords]; rfl, hesp⟩

/-- **An interrupt is transparent**: when the handler returns with the stack as it found it, the code
goes on with every register as it was, and the kernel's stack is as it was. -/
theorem resume_interrupt (h : error.isSome = true ↔ n ∈ error_code_vectors) (esp0 : UInt32) (cpu : Cpu)
    (words : List UInt32) (ss : UInt16) (hss : ¬ cpu.IsUser → ss = cpu.ss) :
    resume ss (interrupted n esp0 cpu words error) =
      (cpu, if cpu.IsUser then ⟨esp0, []⟩ else ⟨cpu.esp, words⟩) := by
  obtain ⟨esp, hwords, -⟩ := interrupted_words h esp0 cpu words
  have hesp : (interrupted n esp0 cpu words error).esp =
      (if cpu.IsUser then esp0 - 20 else cpu.esp - 12) - 8 - 48 := by
    rw [← raise_esp words, ← isr_stub_esp h]
    rfl
  unfold resume
  simp only [hwords, hesp, word, Nat.reduceDiv, List.getD_cons_succ, List.getD_cons_zero,
    toUInt16_toUInt32, List.drop_succ_cons, List.drop_zero]
  by_cases hu : cpu.IsUser
  · have hu' : Cpu.IsUser { cpu with esp := esp0 - 20 - 8 - 48 + 68, ss := ss } := hu
    have htop : esp0 - 20 - 8 - 48 + 76 = esp0 := by ring
    simp only [if_pos hu, if_pos hu', List.getD_cons_succ, List.getD_cons_zero, toUInt16_toUInt32,
      List.drop_succ_cons, List.drop_zero, htop]
  · have htop : cpu.esp - 12 - 8 - 48 + 68 = cpu.esp := by ring
    simp only [if_neg hu, htop, hss hu]

/-- **Interrupts are delivered and leave no trace**, for every vector whose stub expects the error
code that the CPU does or does not push, of user code and of the kernel: the handler gets the frame it
is due, and once it returns, each register and the kernel's stack are as before. -/
theorem interrupt_transparent (n : ℕ) (error : Option UInt32)
    (h : error.isSome = true ↔ n ∈ error_code_vectors) (esp0 : UInt32) (cpu : Cpu) (words : List UInt32)
    (ss : UInt16) (hss : ¬ cpu.IsUser → ss = cpu.ss) :
    (∃ esp, InterruptFrame.ofStack (interrupted n esp0 cpu words error).words = dueFrame n error cpu esp ∧
      (cpu.IsUser → cpu.ds.toUInt32 &&& 0x3 ≠ 0 → esp = cpu.esp)) ∧
    resume ss (interrupted n esp0 cpu words error) =
      (cpu, if cpu.IsUser then ⟨esp0, []⟩ else ⟨cpu.esp, words⟩) :=
  ⟨frame_of_interrupt h esp0 cpu words, resume_interrupt h esp0 cpu words ss hss⟩

/-- User code, in the segments of user code. -/
def userCode : Cpu where
  edi := 1
  esi := 2
  ebp := 0xBFFFFFFC
  esp := 0xBFFFFFF0
  ebx := 3
  edx := 4
  ecx := 5
  eax := 6
  gs := 0x23
  fs := 0x23
  es := 0x23
  ds := 0x23
  eip := 0x100
  eflags := 0x202
  cs := 0x1B
  ss := 0x23

/-- A page fault of user code, with the error code 4. -/
theorem interrupt_transparent_page_fault :
    (∃ esp, InterruptFrame.ofStack (interrupted 14 0xC0010000 userCode [] (some 4)).words =
        dueFrame 14 (some 4) userCode esp ∧
      (userCode.IsUser → userCode.ds.toUInt32 &&& 0x3 ≠ 0 → esp = userCode.esp)) ∧
    resume 0x10 (interrupted 14 0xC0010000 userCode [] (some 4)) =
      (userCode, if userCode.IsUser then ⟨0xC0010000, []⟩ else ⟨userCode.esp, []⟩) :=
  interrupt_transparent 14 (some 4) (by decide) 0xC0010000 userCode [] 0x10
    fun h => absurd (by decide) h

/-! ## What serves an interrupt -/

/-- The cases of `main_interrupt_handler`; it has no default case. -/
inductive Service
  | timer
  | keyboard
  | syscall
  | nothing
  deriving DecidableEq

def main_interrupt_handler (frame : InterruptFrame) : Service :=
  if frame.int_number = 0x20 then .timer
  else if frame.int_number = 0x21 then .keyboard
  else if frame.int_number = 0x30 then .syscall
  else .nothing

/-- The vector of what an instruction raises. -/
def Raised.vector : Raised → ℕ
  | .handler n _ => n
  | .fault n _ => n

/-- Its error code. -/
def Raised.errorCode : Raised → Option UInt32
  | .handler _ _ => none
  | .fault _ error => some (UInt32.ofNat error)

/-- The stack at the handler's call after `int n`. -/
def afterInt (isr_stub_table : ℕ → UInt32) (esp0 : UInt32) (cpu : Cpu) (words : List UInt32) (n : ℕ) : Stack :=
  let raised := software_interrupt (initialize_idt isr_stub_table) (cpu.cs.toUInt32 &&& 0x3).toNat n
  interrupted raised.vector esp0 cpu words raised.errorCode

theorem afterInt_user (isr_stub_table : ℕ → UInt32) (esp0 : UInt32) (words : List UInt32) (n : ℕ)
    (hcpl : cpu.cs.toUInt32 &&& 0x3 = 3) :
    ∃ vector error, afterInt isr_stub_table esp0 cpu words n = interrupted vector esp0 cpu words error ∧
      (error.isSome = true ↔ vector ∈ error_code_vectors) ∧
      (0x30 ≤ n ∧ n ≤ 0x3F → vector = n) ∧ (¬ (0x30 ≤ n ∧ n ≤ 0x3F) → vector = 13) := by
  have hint := software_interrupt_user isr_stub_table n
  rw [← show (cpu.cs.toUInt32 &&& 0x3).toNat = 3 by rw [hcpl]; rfl] at hint
  by_cases h : 0x30 ≤ n ∧ n ≤ 0x3F
  · rw [if_pos h] at hint
    refine ⟨n, none, by rw [afterInt, hint]; rfl, ?_, fun _ => rfl, fun h' => absurd h h'⟩
    have hn : n ∉ error_code_vectors := by
      simp only [error_code_vectors, List.mem_cons, List.not_mem_nil, or_false]
      omega
    simpa using hn
  · rw [if_neg h] at hint
    refine ⟨13, some _, by rw [afterInt, hint]; rfl, ?_, fun h' => absurd h' h, fun _ => rfl⟩
    simp [error_code_vectors]

/-- The registers that carry a system call. -/
structure CallRegisters (frame : InterruptFrame) (cpu : Cpu) : Prop where
  eax : frame.cpu.eax = cpu.eax
  ebx : frame.cpu.ebx = cpu.ebx
  ecx : frame.cpu.ecx = cpu.ecx
  edx : frame.cpu.edx = cpu.edx

theorem ofNat_eq_iff {n : ℕ} (hn : n < 256) (k : UInt32) : UInt32.ofNat n = k ↔ n = k.toNat := by
  rw [← UInt32.toNat_inj, UInt32.toNat_ofNat_of_lt' (Nat.lt_trans hn (by decide))]

/-- The service of a vector. -/
theorem main_interrupt_handler_vector {frame : InterruptFrame} (hn : n < 256)
    (h : frame.int_number = UInt32.ofNat n) :
    main_interrupt_handler frame =
      if n = 0x20 then .timer else if n = 0x21 then .keyboard else if n = 0x30 then .syscall
      else .nothing := by
  unfold main_interrupt_handler
  simp only [h, ofNat_eq_iff hn, UInt32.reduceToNat]

/-- **`int n` in user code reaches `syscall` and nothing else of the kernel**: for 0x30 the handler
calls it with the code's registers, and for any other vector none of its cases applies. Either way
the code goes on with its registers, and the kernel's stack is empty again. -/
theorem user_interrupt (isr_stub_table : ℕ → UInt32) (esp0 : UInt32) (cpu : Cpu) (words : List UInt32)
    (ss : UInt16) (n : Fin 256) (hcpl : cpu.cs.toUInt32 &&& 0x3 = 3) :
    main_interrupt_handler (.ofStack (afterInt isr_stub_table esp0 cpu words n).words) =
        (if n = 0x30 then .syscall else .nothing) ∧
      CallRegisters (.ofStack (afterInt isr_stub_table esp0 cpu words n).words) cpu ∧
      resume ss (afterInt isr_stub_table esp0 cpu words n) = (cpu, ⟨esp0, []⟩) := by
  have hu : cpu.IsUser := by
    unfold Cpu.IsUser
    rw [hcpl]
    decide
  obtain ⟨vector, error, hafter, herror, hin, hout⟩ :=
    afterInt_user isr_stub_table esp0 words n hcpl
  obtain ⟨esp, hframe, -⟩ := frame_of_interrupt herror esp0 cpu words
  rw [hafter, hframe, resume_interrupt herror esp0 cpu words ss fun h => absurd hu h, if_pos hu]
  refine ⟨?_, ⟨rfl, rfl, rfl, rfl⟩, rfl⟩
  have hn := n.isLt
  have h48 : n = 0x30 ↔ n.val = 0x30 := Fin.ext_iff
  by_cases h : 0x30 ≤ n.val ∧ n.val ≤ 0x3F
  · obtain rfl := hin h
    rw [main_interrupt_handler_vector hn rfl, if_neg (by omega), if_neg (by omega)]
    simp only [h48]
  · obtain rfl := hout h
    rw [main_interrupt_handler_vector (by decide) rfl, if_neg (by decide), if_neg (by decide),
      if_neg (by decide), if_neg (by omega)]

/-- A system call of user code. -/
theorem user_interrupt_syscall :
    main_interrupt_handler (.ofStack (afterInt (fun _ => 0xC0000000) 0xC0010000 userCode [] 48).words) =
        .syscall ∧
      CallRegisters (.ofStack (afterInt (fun _ => 0xC0000000) 0xC0010000 userCode [] 48).words) userCode ∧
      resume 0x10 (afterInt (fun _ => 0xC0000000) 0xC0010000 userCode [] 48) =
        (userCode, ⟨0xC0010000, []⟩) :=
  user_interrupt (fun _ => 0xC0000000) 0xC0010000 userCode [] 0x10 48 (by decide)

end KeropOS
