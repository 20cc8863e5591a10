import Mathlib.Data.UInt
import Mathlib.Data.Fintype.Card

/-!
# Saving and loading the CPU

The interrupt stub of `intsetup.s`, `struct InterruptFrame`, `struct Context` and
`process_context_switch` of `scheduler.s`. A stack is the list of its words, the word at `esp` first;
the assembly reads and writes it at byte offsets.

* `call_generic_handler`: what the stub pushes; `timer_context`: what the handler saves;
* `process_context_switch`: what the switch loads, **`process_context_switch_loads`**;
* **`switch_capture`**: loading what was captured in user mode gives the same registers.
-/

namespace KeropOS

/-- The registers of the CPU. -/
structure Cpu where
  edi : UInt32
  esi : UInt32
  ebp : UInt32
  esp : UInt32
  ebx : UInt32
  edx : UInt32
  ecx : UInt32
  eax : UInt32
  gs : UInt16
  fs : UInt16
  es : UInt16
  ds : UInt16
  eip : UInt32
  eflags : UInt32
  cs : UInt16
  ss : UInt16
  deriving DecidableEq

/-- `struct CPURegister`, its four parts in one. -/
structure CPURegister where
  edi : UInt32
  esi : UInt32
  ebp : UInt32
  esp : UInt32
  ebx : UInt32
  edx : UInt32
  ecx : UInt32
  eax : UInt32
  gs : UInt32
  fs : UInt32
  es : UInt32
  ds : UInt32
  deriving DecidableEq

structure Context where
  cpu : CPURegister
  eip : UInt32
  eflags : UInt32
  page_directory_virtual_addr : UInt32
  deriving DecidableEq

structure InterruptFrame where
  cpu : CPURegister
  int_number : UInt32
  error_code : UInt32
  eip : UInt32
  cs : UInt32
  eflags : UInt32

/-- The word at byte offset `offset`. -/
def word (stack : List UInt32) (offset : ℕ) : UInt32 := stack.getD (offset / 4) 0

/-! ## The interrupt stub -/

/-- What the CPU pushes when user code is interrupted. -/
def interrupt_stack (cpu : Cpu) : List UInt32 :=
  [cpu.eip, cpu.cs.toUInt32, cpu.eflags, cpu.esp, cpu.ss.toUInt32]

/-- `interrupt_handler_n`, for interrupts without an error code. -/
def interrupt_handler (n : UInt32) (stack : List UInt32) : List UInt32 := n :: 0 :: stack

/-- The stack at the call of `main_interrupt_handler`; `esp` is the kernel's stack pointer at
`pushad`. -/
def call_generic_handler (cpu : Cpu) (esp : UInt32) (stack : List UInt32) : List UInt32 :=
  let stack := cpu.gs.toUInt32 :: cpu.fs.toUInt32 :: cpu.es.toUInt32 :: cpu.ds.toUInt32 :: stack
  let stack := cpu.edi :: cpu.esi :: cpu.ebp :: esp :: cpu.ebx :: cpu.edx :: cpu.ecx :: cpu.eax :: stack
  -- `pushf` and `push eax`
  let stack := cpu.eax :: cpu.eflags :: stack
  let stack := if word stack 52 &&& 0x3 = 0 then stack else stack.set (20 / 4) (word stack 76)
  stack.drop 2

/-- The frame at the top of a stack. -/
def InterruptFrame.ofStack (stack : List UInt32) : InterruptFrame where
  cpu :=
    { edi := word stack 0
      esi := word stack 4
      ebp := word stack 8
      esp := word stack 12
      ebx := word stack 16
      edx := word stack 20
      ecx := word stack 24
      eax := word stack 28
      gs := word stack 32
      fs := word stack 36
      es := word stack 40
      ds := word stack 44 }
  int_number := word stack 48
  error_code := word stack 52
  eip := word stack 56
  cs := word stack 60
  eflags := word stack 64

/-- `ctx` in the timer case of `main_interrupt_handler`. -/
def timer_context (frame : InterruptFrame) (current : UInt32) : Context where
  cpu := frame.cpu
  eip := frame.eip
  eflags := frame.eflags
  page_directory_virtual_addr := current

/-- What the timer interrupt, number 32, captures of a process. -/
def captured (cpu : Cpu) (esp current : UInt32) : Context :=
  timer_context (.ofStack (call_generic_handler cpu esp (interrupt_handler 32 (interrupt_stack cpu)))) current

/-! ## The context switch -/

/-- A context in memory. -/
def Context.words (ctx : Context) : List UInt32 :=
  [ctx.cpu.edi, ctx.cpu.esi, ctx.cpu.ebp, ctx.cpu.esp, ctx.cpu.ebx, ctx.cpu.edx, ctx.cpu.ecx,
    ctx.cpu.eax, ctx.cpu.gs, ctx.cpu.fs, ctx.cpu.es, ctx.cpu.ds, ctx.eip, ctx.eflags,
    ctx.page_directory_virtual_addr]

/-- The registers after `process_context_switch` and its `iret`. -/
def process_context_switch (ctx : Context) : Cpu where
  ss := 0x20 ||| 0x3
  esp := word ctx.words 12
  eflags := word ctx.words 52
  cs := 0x18 ||| 0x3
  eip := word ctx.words 48
  edi := word ctx.words 0
  esi := word ctx.words 4
  ebp := word ctx.words 8
  ebx := word ctx.words 16
  edx := word ctx.words 20
  eax := word ctx.words 28
  gs := (word ctx.words 32).toUInt16
  fs := (word ctx.words 36).toUInt16
  es := (word ctx.words 40).toUInt16
  ds := (word ctx.words 44).toUInt16
  ecx := word ctx.words 24

/-- The registers of `cpu` are those of the context. -/
structure Loads (ctx : Context) (cpu : Cpu) : Prop where
  edi : cpu.edi = ctx.cpu.edi
  esi : cpu.esi = ctx.cpu.esi
  ebp : cpu.ebp = ctx.cpu.ebp
  esp : cpu.esp = ctx.cpu.esp
  ebx : cpu.ebx = ctx.cpu.ebx
  edx : cpu.edx = ctx.cpu.edx
  ecx : cpu.ecx = ctx.cpu.ecx
  eax : cpu.eax = ctx.cpu.eax
  gs : cpu.gs = ctx.cpu.gs.toUInt16
  fs : cpu.fs = ctx.cpu.fs.toUInt16
  es : cpu.es = ctx.cpu.es.toUInt16
  ds : cpu.ds = ctx.cpu.ds.toUInt16
  eip : cpu.eip = ctx.eip
  eflags : cpu.eflags = ctx.eflags

/-- **Every offset of the switch is that of its field.** -/
theorem process_context_switch_loads (ctx : Context) : Loads ctx (process_context_switch ctx) := by
  constructor <;> rfl

theorem toUInt16_toUInt32 (x : UInt16) : x.toUInt32.toUInt16 = x := by
  apply UInt16.toNat_inj.mp
  have := x.toNat_lt
  rw [UInt32.toNat_toUInt16, UInt16.toNat_toUInt32]
  omega

/-- What the stub captures; in the inter-privilege branch `esp` is the process's own. -/
theorem captured_eq (cpu : Cpu) (esp current : UInt32) : captured cpu esp current =
    { cpu := ⟨cpu.edi, cpu.esi, cpu.ebp, if cpu.ds.toUInt32 &&& 0x3 = 0 then esp else cpu.esp, cpu.ebx,
        cpu.edx, cpu.ecx, cpu.eax, cpu.gs.toUInt32, cpu.fs.toUInt32, cpu.es.toUInt32, cpu.ds.toUInt32⟩
      eip := cpu.eip
      eflags := cpu.eflags
      page_directory_virtual_addr := current } := by
  have hds : word (cpu.eax :: cpu.eflags :: cpu.edi :: cpu.esi :: cpu.ebp :: esp :: cpu.ebx :: cpu.edx ::
      cpu.ecx :: cpu.eax :: cpu.gs.toUInt32 :: cpu.fs.toUInt32 :: cpu.es.toUInt32 :: cpu.ds.toUInt32 ::
      interrupt_handler 32 (interrupt_stack cpu)) 52 = cpu.ds.toUInt32 := rfl
  by_cases h : cpu.ds.toUInt32 &&& 0x3 = 0
  · simp only [captured, call_generic_handler, hds, h, if_true]
    rfl
  · simp only [captured, call_generic_handler, hds, h, if_false]
    rfl

/-- **Capture and load.** A process with a user data segment gets back the registers it was
interrupted with. -/
theorem switch_capture (cpu : Cpu) (esp current : UInt32) (hds : cpu.ds.toUInt32 &&& 0x3 ≠ 0)
    (hcs : cpu.cs = 0x1B) (hss : cpu.ss = 0x23) :
    process_context_switch (captured cpu esp current) = cpu := by
  rw [captured_eq, if_neg hds]
  cases cpu
  simp only at hcs hss
  subst hcs hss
  simp only [process_context_switch, word, Context.words, List.getD_cons_succ, List.getD_cons_zero,
    Nat.reduceDiv, toUInt16_toUInt32, Cpu.mk.injEq, true_and]
  decide

end KeropOS
