import Mathlib.Data.UInt
import KeropOS.Lib.Bitfield

/-!
# Descriptor tables

`idt.c`. The C records are bit-fields; the CPU reads the same bits at the positions its manual gives.

* `IDTGate`, `initialize_idt`; `Gate.ofBits`: a gate as the CPU reads it;
* **`gate_of_vector`**: the gates the CPU finds; **`software_interrupt_user`**: what `int n` in user
  code raises.
-/

namespace KeropOS

open Bitfield

/-- A value cut to the width of its field. -/
def toField (w n : ℕ) : Fin (2 ^ w) := ⟨n % 2 ^ w, Nat.mod_lt _ (Nat.two_pow_pos w)⟩

/-! ## Interrupt gates -/

structure IDTGate where
  offset_low : Fin (2 ^ 16)
  segment : Fin (2 ^ 16)
  reserved : Fin (2 ^ 5)
  r_bit_1 : Fin (2 ^ 3)
  r_bit_2 : Fin (2 ^ 3)
  gate_32 : Fin (2 ^ 1)
  r_bit_3 : Fin (2 ^ 1)
  dpl : Fin (2 ^ 2)
  valid_bit : Fin (2 ^ 1)
  offset_high : Fin (2 ^ 16)

namespace IDTGate

/-- A zeroed gate, as the table has them before `initialize_idt`. -/
def zero : IDTGate := ⟨0, 0, 0, 0, 0, 0, 0, 0, 0, 0⟩

/-- The fields in the order of the record. -/
def fields (g : IDTGate) : List Field :=
  [⟨16, g.offset_low⟩, ⟨16, g.segment⟩, ⟨5, g.reserved⟩, ⟨3, g.r_bit_1⟩, ⟨3, g.r_bit_2⟩,
    ⟨1, g.gate_32⟩, ⟨1, g.r_bit_3⟩, ⟨2, g.dpl⟩, ⟨1, g.valid_bit⟩, ⟨16, g.offset_high⟩]

/-- The 64 bits of the gate. -/
def bits (g : IDTGate) : ℕ := pack g.fields

end IDTGate

abbrev InterruptDescriptorTable := ℕ → IDTGate

def GDT_KERNEL_CODE_SEGMENT_SELECTOR : ℕ := 0x8

def INTERRUPT_GATE_R_BIT_1 : Fin (2 ^ 3) := 0b000
def INTERRUPT_GATE_R_BIT_2 : Fin (2 ^ 3) := 0b110
def INTERRUPT_GATE_R_BIT_3 : Fin (2 ^ 1) := 0b0

def set_interrupt_gate (table : InterruptDescriptorTable) (int_vector : ℕ) (handler_address : UInt32)
    (gdt_seg_selector privilege : ℕ) : InterruptDescriptorTable :=
  Function.update table int_vector
    { table int_vector with
      offset_low := toField 16 handler_address.toNat
      segment := toField 16 gdt_seg_selector
      r_bit_1 := INTERRUPT_GATE_R_BIT_1
      r_bit_2 := INTERRUPT_GATE_R_BIT_2
      r_bit_3 := INTERRUPT_GATE_R_BIT_3
      gate_32 := 1
      dpl := toField 2 privilege
      valid_bit := 1
      offset_high := toField 16 (handler_address.toNat / 2 ^ 16) }

def ISR_STUB_TABLE_LIMIT : ℕ := 64

/-- The loop of `initialize_idt`, for the vectors below `n`. -/
def set_gates (isr_stub_table : ℕ → UInt32) (table : InterruptDescriptorTable) :
    (n : ℕ) → InterruptDescriptorTable
  | 0 => table
  | i + 1 =>
    if i ≥ 0x30 ∧ i ≤ 0x3F then
      set_interrupt_gate (set_gates isr_stub_table table i) i (isr_stub_table i)
        GDT_KERNEL_CODE_SEGMENT_SELECTOR 0x3
    else
      set_interrupt_gate (set_gates isr_stub_table table i) i (isr_stub_table i)
        GDT_KERNEL_CODE_SEGMENT_SELECTOR 0x0

def initialize_idt (isr_stub_table : ℕ → UInt32) : InterruptDescriptorTable :=
  set_gates isr_stub_table (fun _ => .zero) ISR_STUB_TABLE_LIMIT

/-! ## Gates as the CPU reads them -/

/-- A gate descriptor. -/
structure Gate where
  offset : ℕ
  selector : ℕ
  dpl : ℕ
  present : Bool
  /-- It is a 32-bit interrupt gate. -/
  interrupt : Bool
  deriving DecidableEq

/-- The descriptor in 64 bits. -/
def Gate.ofBits (n : ℕ) : Gate where
  offset := field n 0 16 + 2 ^ 16 * field n 48 16
  selector := field n 16 16
  dpl := field n 45 2
  present := field n 47 1 = 1
  interrupt := field n 37 3 = 0 ∧ field n 40 3 = 0b110 ∧ field n 43 1 = 1 ∧ field n 44 1 = 0

theorem Gate.ofBits_bits (g : IDTGate) : Gate.ofBits g.bits =
    { offset := g.offset_low + 2 ^ 16 * g.offset_high
      selector := g.segment
      dpl := g.dpl
      present := g.valid_bit = 1
      interrupt := g.r_bit_1 = 0 ∧ g.r_bit_2 = 0b110 ∧ g.gate_32 = 1 ∧ g.r_bit_3 = 0 } := by
  have h0 : field g.bits 0 16 = g.offset_low := field_pack [] (g.fields.drop 1) 16 g.offset_low
  have h16 : field g.bits 16 16 = g.segment := field_pack (g.fields.take 1) (g.fields.drop 2) 16 g.segment
  have h37 : field g.bits 37 3 = g.r_bit_1 := field_pack (g.fields.take 3) (g.fields.drop 4) 3 g.r_bit_1
  have h40 : field g.bits 40 3 = g.r_bit_2 := field_pack (g.fields.take 4) (g.fields.drop 5) 3 g.r_bit_2
  have h43 : field g.bits 43 1 = g.gate_32 := field_pack (g.fields.take 5) (g.fields.drop 6) 1 g.gate_32
  have h44 : field g.bits 44 1 = g.r_bit_3 := field_pack (g.fields.take 6) (g.fields.drop 7) 1 g.r_bit_3
  have h45 : field g.bits 45 2 = g.dpl := field_pack (g.fields.take 7) (g.fields.drop 8) 2 g.dpl
  have h47 : field g.bits 47 1 = g.valid_bit :=
    field_pack (g.fields.take 8) (g.fields.drop 9) 1 g.valid_bit
  have h48 : field g.bits 48 16 = g.offset_high :=
    field_pack (g.fields.take 9) (g.fields.drop 10) 16 g.offset_high
  unfold Gate.ofBits
  rw [h0, h16, h37, h40, h43, h44, h45, h47, h48]
  simp only [Fin.ext_iff]
  rfl

/-! ## What the CPU finds -/

variable {isr_stub_table : ℕ → UInt32} {n k : ℕ}

/-- The privilege that `initialize_idt` gives a vector. -/
def vectorPrivilege (n : ℕ) : ℕ := if 0x30 ≤ n ∧ n ≤ 0x3F then 3 else 0

theorem vectorPrivilege_lt (n : ℕ) : vectorPrivilege n < 4 := by
  unfold vectorPrivilege
  split_ifs <;> decide

theorem set_gates_succ (table : InterruptDescriptorTable) (i : ℕ) :
    set_gates isr_stub_table table (i + 1) =
      set_interrupt_gate (set_gates isr_stub_table table i) i (isr_stub_table i)
        GDT_KERNEL_CODE_SEGMENT_SELECTOR (vectorPrivilege i) := by
  unfold vectorPrivilege
  rw [set_gates]
  split_ifs <;> rfl

theorem set_gates_of_le (table : InterruptDescriptorTable) (h : n ≤ k) :
    set_gates isr_stub_table table n k = table k := by
  induction n with
  | zero => rfl
  | succ n ih =>
    rw [set_gates_succ, set_interrupt_gate, Function.update_of_ne (by omega), ih (by omega)]

/-- The gate set for a vector, as the CPU reads it. -/
theorem gate_of_set (table : InterruptDescriptorTable) (v : ℕ) (address : UInt32) (selector privilege : ℕ)
    (hs : selector < 2 ^ 16) (hp : privilege < 2 ^ 2) :
    Gate.ofBits (set_interrupt_gate table v address selector privilege v).bits =
      { offset := address.toNat, selector := selector, dpl := privilege, present := true,
        interrupt := true } := by
  have haddress := address.toNat_lt
  rw [set_interrupt_gate, Function.update_self, Gate.ofBits_bits]
  simp only [Gate.mk.injEq, toField, Nat.mod_eq_of_lt hs, Nat.mod_eq_of_lt hp, true_and]
  refine ⟨?_, ?_, ?_⟩
  · omega
  · decide
  · decide

theorem set_gates_of_lt (table : InterruptDescriptorTable) (h : k < n) :
    Gate.ofBits (set_gates isr_stub_table table n k).bits =
      { offset := (isr_stub_table k).toNat, selector := GDT_KERNEL_CODE_SEGMENT_SELECTOR,
        dpl := vectorPrivilege k, present := true, interrupt := true } := by
  induction n with
  | zero => exact absurd h (Nat.not_lt_zero k)
  | succ n ih =>
    rw [set_gates_succ]
    by_cases hk : k = n
    · subst hk
      exact gate_of_set _ _ _ _ _ (by decide) (vectorPrivilege_lt k)
    · rw [set_interrupt_gate, Function.update_of_ne hk]
      exact ih (by omega)

/-- **The gates the CPU finds**: each vector below 64 leads to its stub in the kernel's code segment,
those from 0x30 on for user code too; there is no gate for the others. -/
theorem gate_of_vector (isr_stub_table : ℕ → UInt32) (n : ℕ) :
    Gate.ofBits (initialize_idt isr_stub_table n).bits =
      if n < 64 then
        { offset := (isr_stub_table n).toNat, selector := 0x8, dpl := vectorPrivilege n,
          present := true, interrupt := true }
      else { offset := 0, selector := 0, dpl := 0, present := false, interrupt := false } := by
  unfold initialize_idt
  by_cases h : n < 64
  · rw [if_pos h]
    exact set_gates_of_lt _ h
  · have hlimit : ISR_STUB_TABLE_LIMIT ≤ n := not_lt.mp h
    rw [if_neg h, set_gates_of_le _ hlimit]
    rfl

/-! ## Software interrupts -/

/-- What an interrupt instruction raises: the handler of its vector, or a fault with an error code. -/
inductive Raised
  | handler (vector address : ℕ)
  | fault (vector error : ℕ)
  deriving DecidableEq

/-- `int n` in code of the privilege `cpl`: a gate that is none or that asks for more privilege is a
general protection fault, 13, and one that is not present is fault 11. -/
def software_interrupt (idt : InterruptDescriptorTable) (cpl n : ℕ) : Raised :=
  if ¬ (Gate.ofBits (idt n).bits).interrupt ∨ (Gate.ofBits (idt n).bits).dpl < cpl then .fault 13 (n * 8 + 2)
  else if ¬ (Gate.ofBits (idt n).bits).present then .fault 11 (n * 8 + 2)
  else .handler n (Gate.ofBits (idt n).bits).offset

/-- **User code raises the vectors 0x30 to 0x3F only**; any other `int` is a protection fault. -/
theorem software_interrupt_user (isr_stub_table : ℕ → UInt32) (n : ℕ) :
    software_interrupt (initialize_idt isr_stub_table) 3 n =
      if 0x30 ≤ n ∧ n ≤ 0x3F then .handler n (isr_stub_table n).toNat else .fault 13 (n * 8 + 2) := by
  unfold software_interrupt
  rw [gate_of_vector]
  by_cases h : n < 64
  · simp only [if_pos h, vectorPrivilege]
    by_cases hu : 0x30 ≤ n ∧ n ≤ 0x3F
    · simp [hu]
    · simp [hu]
  · have hu : ¬ (0x30 ≤ n ∧ n ≤ 0x3F) := by omega
    simp [h, hu]

end KeropOS
