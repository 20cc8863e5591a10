import KeropOS.Lib.Packed
import Mathlib.Tactic.SplitIfs

/-!
# Drives in PIO mode

A device answers the four port instructions. A drive shows its host a bank of registers, a status
byte and one data port through which the sectors of a transfer pass a word at a time.

* `Drive`: the registers, the bytes and the transfer under way;
* `Follows`: a device whose ports behave as a drive's, busy for some status reads at a time;
* `copyWords`: words copied between two byte arrays, with **`copyWords_succ`** for loops;
* `slowDrive`: a drive that is busy after every command and sector, with **`follows_slowDrive`**.
-/

namespace Pio

open Packed

/-! ## Words in an array of bytes -/

/-- The word `w` of an array of bytes. -/
def word (b : ℕ → UInt8) (w : ℕ) : UInt16 := u16.decode fun i => b (w * 2 + i)

/-- The array with its word `w` set to `v`. -/
def setWord (b : ℕ → UInt8) (w : ℕ) (v : UInt16) : ℕ → UInt8 := fun a =>
  if h : w * 2 ≤ a ∧ a - w * 2 < 2 then u16.encode v ⟨a - w * 2, h.2⟩ else b a

/-- The array `b` after `n` words of `c`, from its word `v` on, went to `b`'s words from `w` on. -/
def copyWords (b : ℕ → UInt8) (w : ℕ) (c : ℕ → UInt8) (v n : ℕ) : ℕ → UInt8 := fun a =>
  if w * 2 ≤ a ∧ a < (w + n) * 2 then c (v * 2 + (a - w * 2)) else b a

@[simp] theorem copyWords_zero (b : ℕ → UInt8) (w : ℕ) (c : ℕ → UInt8) (v : ℕ) :
    copyWords b w c v 0 = b := by
  funext a
  exact if_neg (by omega)

/-- **One more word.** -/
theorem copyWords_succ (b : ℕ → UInt8) (w : ℕ) (c : ℕ → UInt8) (v n : ℕ) :
    setWord (copyWords b w c v n) (w + n) (word c (v + n)) = copyWords b w c v (n + 1) := by
  funext a
  unfold setWord
  by_cases h : (w + n) * 2 ≤ a ∧ a - (w + n) * 2 < 2
  · have hin : w * 2 ≤ a ∧ a < (w + (n + 1)) * 2 := by omega
    rw [dif_pos h, word, u16.encode_decode, copyWords, if_pos hin]
    exact congrArg c (by simp only; omega)
  · rw [dif_neg h]
    simp only [copyWords]
    by_cases hin : w * 2 ≤ a ∧ a < (w + n) * 2
    · have hin' : w * 2 ≤ a ∧ a < (w + (n + 1)) * 2 := by omega
      rw [if_pos hin, if_pos hin']
    · have hin' : ¬ (w * 2 ≤ a ∧ a < (w + (n + 1)) * 2) := by omega
      rw [if_neg hin, if_neg hin']

/-! ## Drives -/

/-- A device behind the port instructions, each of which may change its state. -/
structure Device (σ : Type*) where
  in8 : UInt16 → σ → UInt8 × σ
  out8 : UInt16 → UInt8 → σ → σ
  in16 : UInt16 → σ → UInt16 × σ
  out16 : UInt16 → UInt16 → σ → σ

/-- What passes through the data port: the next word of the medium, and the words still to come. -/
inductive Transfer
  | idle
  | reading (word left : ℕ)
  | writing (word left : ℕ)
  deriving DecidableEq

namespace Transfer

/-- `left` words to read from `w` on; no word is no transfer. -/
def read (w left : ℕ) : Transfer := if left = 0 then .idle else .reading w left

/-- `left` words to write from `w` on; no word is no transfer. -/
def write (w left : ℕ) : Transfer := if left = 0 then .idle else .writing w left

/-- The transfer after one word. -/
def advance : Transfer → Transfer
  | .idle => .idle
  | .reading w left => read (w + 1) (left - 1)
  | .writing w left => write (w + 1) (left - 1)

/-- A sector's last word has passed. -/
def AtSector : Transfer → Prop
  | .idle => True
  | .reading _ left => left % 256 = 0
  | .writing _ left => left % 256 = 0

instance : DecidablePred AtSector := fun t =>
  match t with
  | .idle => isTrue trivial
  | .reading _ left => inferInstanceAs (Decidable (left % 256 = 0))
  | .writing _ left => inferInstanceAs (Decidable (left % 256 = 0))

variable {w n : ℕ}

@[simp] theorem read_zero : read w 0 = .idle := rfl

@[simp] theorem write_zero : write w 0 = .idle := rfl

theorem read_succ : read w (n + 1) = .reading w (n + 1) := rfl

theorem write_succ : write w (n + 1) = .writing w (n + 1) := rfl

@[simp] theorem advance_read_succ : (read w (n + 1)).advance = read (w + 1) n := rfl

@[simp] theorem advance_write_succ : (write w (n + 1)).advance = write (w + 1) n := rfl

theorem atSector_read : (read w n).AtSector ↔ n % 256 = 0 := by
  cases n with
  | zero => exact iff_of_true trivial rfl
  | succ n => exact Iff.rfl

theorem atSector_write : (write w n).AtSector ↔ n % 256 = 0 := by
  cases n with
  | zero => exact iff_of_true trivial rfl
  | succ n => exact Iff.rfl

end Transfer

/-- What a drive holds: the medium, the task file and the transfer under way. -/
structure Drive where
  bytes : ℕ → UInt8
  select : UInt8
  count : UInt8
  low : UInt8
  mid : UInt8
  high : UInt8
  transfer : Transfer

namespace Drive

variable (d : Drive)

/-- The 28-bit sector address in the task file. -/
def address : ℕ :=
  d.select.toNat % 16 * 2 ^ 24 + d.high.toNat * 2 ^ 16 + d.mid.toNat * 2 ^ 8 + d.low.toNat

/-- The sector count in the task file, where 0 stands for 256. -/
def sectors : ℕ := if d.count = 0 then 256 else d.count.toNat

/-- The transfer a command starts: `READ SECTORS`, `WRITE SECTORS`, or none. -/
def command (c : UInt8) : Transfer :=
  if c = 0x20 then .read (d.address * 256) (d.sectors * 256)
  else if c = 0x30 then .write (d.address * 256) (d.sectors * 256)
  else .idle

/-- A byte written to one of the drive's ports. -/
def out8 (port : UInt16) (v : UInt8) : Drive :=
  if port = 0x1F2 then { d with count := v }
  else if port = 0x1F3 then { d with low := v }
  else if port = 0x1F4 then { d with mid := v }
  else if port = 0x1F5 then { d with high := v }
  else if port = 0x1F6 then { d with select := v }
  else if port = 0x1F7 then { d with transfer := d.command v }
  else d

/-- The word the data port holds for the host. -/
def data : UInt16 :=
  match d.transfer with
  | .reading w _ => word d.bytes w
  | _ => 0

/-- The host has taken a word. -/
def taken : Drive := { d with transfer := d.transfer.advance }

/-- The host has given the word `v`. -/
def given (v : UInt16) : Drive :=
  match d.transfer with
  | .writing w _ => { d with bytes := setWord d.bytes w v, transfer := d.transfer.advance }
  | _ => d

end Drive

/-! ## Devices that behave as a drive -/

variable {σ : Type*}

/-- The device `D` behaves as a drive: `view s` is what the drive holds, and the next `busy s`
reads of the status port say that it is busy, never more than `patience` of them. The host has
to wait until it is not; then data is ready, and stays so up to the end of the sector. The task
file is for the host to write only between transfers. -/
structure Follows (D : Device σ) (view : σ → Drive) (busy : σ → ℕ) (patience : ℕ) : Prop where
  busy_le : ∀ s, busy s ≤ patience
  status_busy : ∀ s, (D.in8 0x1F7 s).1 &&& 0x80 = 0 ↔ busy s = 0
  status_ready : ∀ s, busy s = 0 → (D.in8 0x1F7 s).1 &&& 0x40 ≠ 0
  status_view : ∀ s, view (D.in8 0x1F7 s).2 = view s
  status_next : ∀ s, busy (D.in8 0x1F7 s).2 = busy s - 1
  out8_view : ∀ s port v, busy s = 0 → (view s).transfer = .idle →
    view (D.out8 port v s) = (view s).out8 port v
  out8_busy : ∀ s port v, busy s = 0 → port ≠ 0x1F7 → busy (D.out8 port v s) = 0
  in16_data : ∀ s, busy s = 0 → (D.in16 0x1F0 s).1 = (view s).data
  in16_view : ∀ s, busy s = 0 → view (D.in16 0x1F0 s).2 = (view s).taken
  in16_busy : ∀ s, busy s = 0 → ¬ (view s).taken.transfer.AtSector → busy (D.in16 0x1F0 s).2 = 0
  out16_view : ∀ s v, busy s = 0 → view (D.out16 0x1F0 v s) = (view s).given v
  out16_busy : ∀ s v, busy s = 0 → ¬ ((view s).given v).transfer.AtSector →
    busy (D.out16 0x1F0 v s) = 0

/-! ## A slow drive -/

/-- The status reads for which a slow drive is still busy. -/
def slowBusy (delay : ℕ) (s : Drive × ℕ) : ℕ := min s.2 delay

/-- A drive that is busy for `delay` status reads after each command and each sector. -/
def slowDrive (delay : ℕ) : Device (Drive × ℕ) where
  in8 port s :=
    if port = 0x1F7 then (if slowBusy delay s = 0 then 0x40 else 0x80, s.1, slowBusy delay s - 1)
    else (0, s)
  out8 port v s := (s.1.out8 port v, if port = 0x1F7 then delay else s.2)
  in16 _ s := (s.1.data, s.1.taken, if s.1.taken.transfer.AtSector then delay else s.2)
  out16 _ v s := (s.1.given v, if (s.1.given v).transfer.AtSector then delay else s.2)

/-- **A slow drive behaves as a drive.** -/
theorem follows_slowDrive (delay : ℕ) :
    Follows (slowDrive delay) Prod.fst (slowBusy delay) delay where
  busy_le s := Nat.min_le_right _ _
  status_busy s := by
    by_cases h : slowBusy delay s = 0
    · simp only [slowDrive, h, if_true, iff_true]
      rfl
    · simp only [slowDrive, h, if_true, if_false, iff_false]
      decide
  status_ready s h := by simp [slowDrive, h]
  status_view s := rfl
  status_next s := by
    change min (slowBusy delay s - 1) delay = slowBusy delay s - 1
    unfold slowBusy
    omega
  out8_view s port v _ _ := rfl
  out8_busy s port v h hp := by
    simp only [slowBusy, slowDrive, if_neg hp]
    exact h
  in16_data s _ := rfl
  in16_view s _ := rfl
  in16_busy s h hs := by
    simp only [slowBusy, slowDrive, if_neg hs]
    exact h
  out16_view s v _ := rfl
  out16_busy s v h hs := by
    simp only [slowBusy, slowDrive, if_neg hs]
    exact h

end Pio
