import KeropOS.Fat.Ata
import KeropOS.Fat.FileMap
import KeropOS.Stdlib.Memory

/-!
# The inserter

`external-inserter.c` links the file system with block functions of its own, which copy between
memory and an image of the drive in memory. The kernel later mounts what it wrote.

* `Inserter.read_blocks`, `Inserter.write_blocks`: the copies; `imageDisk`: the image as a drive;
* **`image_call_returns`**: one call against the disk model;
* **`image_sessions_refine_disk`**: sessions of calls against it.
-/

namespace KeropOS

open Packed Overlap Transition

namespace Inserter

/-! ## The image in memory -/

/-- The byte offset `BLOCK_SIZE * (logical_block_address + i)`, computed in 32 bits. -/
def image_offset (logical_block_address : UInt32) (i : ℕ) : ℕ :=
  (512 * (logical_block_address + UInt32.ofNat i)).toNat

/-- The loop of `read_blocks`, for the blocks below `n`. -/
def read_blocks (m : Memory) (image_storage ptr : ℕ) (logical_block_address : UInt32) : (n : ℕ) → Memory
  | 0 => m
  | n + 1 =>
    memcpy (read_blocks m image_storage ptr logical_block_address n) (ptr + 512 * n)
      (image_storage + image_offset logical_block_address n) 512

/-- The loop of `write_blocks`, for the blocks below `n`. -/
def write_blocks (m : Memory) (image_storage ptr : ℕ) (logical_block_address : UInt32) : (n : ℕ) → Memory
  | 0 => m
  | n + 1 =>
    memcpy (write_blocks m image_storage ptr logical_block_address n)
      (image_storage + image_offset logical_block_address n) (ptr + 512 * n) 512

/-- The image has 4 MiB. -/
def imageSize : ℕ := 4 * 1024 * 1024

/-- The drive that an image of `size` bytes stands for; there is nothing behind it. -/
def imageDisk (image_storage size : ℕ) (m : Memory) : Disk := fun a =>
  if a < size then m (image_storage + a) else 0

/-- The buffer of `n` bytes at `ptr`. -/
def bufferAt (m : Memory) (ptr n : ℕ) : Buffer := fun a => if a < n then m (ptr + a) else 0

/-- A transfer of blocks of the image, with a buffer outside it. -/
structure ImageCall (image_storage size : ℕ) where
  isWrite : Bool
  ptr : ℕ
  logical_block_address : UInt32
  block_count : UInt8
  pos : block_count ≠ 0
  inside : (logical_block_address.toNat + block_count.toNat) * 512 ≤ size
  apart : ptr + block_count.toNat * 512 ≤ image_storage ∨ image_storage + size ≤ ptr

namespace ImageCall

variable {image_storage size : ℕ} (c : ImageCall image_storage size)

/-- The memory after the call. -/
def perform (m : Memory) : Memory :=
  if c.isWrite then write_blocks m image_storage c.ptr c.logical_block_address c.block_count.toNat
  else read_blocks m image_storage c.ptr c.logical_block_address c.block_count.toNat

/-- The bytes of the call's buffer. -/
def buffer (m : Memory) : Buffer := bufferAt m c.ptr (c.block_count.toNat * 512)

/-- The same call, of a drive. -/
def blockCall (m : Memory) : Ata.BlockCall :=
  if c.isWrite then .write ⟨c.buffer m, c.logical_block_address, c.block_count, c.pos⟩
  else .read ⟨c.buffer m, c.logical_block_address, c.block_count, c.pos⟩

end ImageCall

/-- One call of the image's functions, as an event of a drive. -/
def ImageStep (image_storage size : ℕ) (m : Memory) (event : Ata.BlockCall × Buffer) (m' : Memory) : Prop :=
  ∃ c : ImageCall image_storage size, event = (c.blockCall m, c.buffer m') ∧ m' = c.perform m

variable {m : Memory} {image_storage ptr n size : ℕ} {lba : UInt32}

theorem image_offset_eq (lba : UInt32) (n : ℕ) (h : (lba.toNat + n) * 512 < 2 ^ 32) :
    image_offset lba n = lba.toNat * 512 + n * 512 := by
  rw [image_offset, UInt32.toNat_mul, UInt32.toNat_add, UInt32.toNat_ofNat']
  simp only [UInt32.reduceToNat]
  omega

/-- Two blocks copied one behind the other are one. -/
theorem block_block {dest src k : ℕ} (h : src + (n + k) ≤ dest ∨ dest + (n + k) ≤ src) :
    block (block m dest src n) (dest + n) (src + n) k = block m dest src (n + k) := by
  funext a
  simp only [block]
  by_cases hlast : dest + n ≤ a ∧ a < dest + n + k
  · rw [if_pos hlast, if_neg (by omega), if_pos (by omega)]
    exact congrArg m (by omega)
  · rw [if_neg hlast]
    by_cases hfirst : dest ≤ a ∧ a < dest + n
    · rw [if_pos hfirst, if_pos (by omega)]
    · rw [if_neg hfirst, if_neg (by omega)]

-- `omega` counts to 512 here
set_option maxRecDepth 2000 in
theorem read_blocks_eq (hsize : size < 2 ^ 32) (hin : (lba.toNat + n) * 512 ≤ size)
    (hapart : ptr + n * 512 ≤ image_storage ∨ image_storage + size ≤ ptr) :
    read_blocks m image_storage ptr lba n =
      block m ptr (image_storage + lba.toNat * 512) (n * 512) := by
  induction n with
  | zero =>
    funext a
    exact (if_neg (by omega)).symm
  | succ n ih =>
    have hoff := image_offset_eq lba n (by omega)
    rw [read_blocks, ih (by omega) (by omega), hoff, memcpy_eq_block (by omega), Nat.mul_comm 512 n,
      ← Nat.add_assoc, block_block (by omega), Nat.succ_mul]

set_option maxRecDepth 2000 in
theorem write_blocks_eq (hsize : size < 2 ^ 32) (hin : (lba.toNat + n) * 512 ≤ size)
    (hapart : ptr + n * 512 ≤ image_storage ∨ image_storage + size ≤ ptr) :
    write_blocks m image_storage ptr lba n =
      block m (image_storage + lba.toNat * 512) ptr (n * 512) := by
  induction n with
  | zero =>
    funext a
    exact (if_neg (by omega)).symm
  | succ n ih =>
    have hoff := image_offset_eq lba n (by omega)
    rw [write_blocks, ih (by omega) (by omega), hoff, memcpy_eq_block (by omega), Nat.mul_comm 512 n,
      ← Nat.add_assoc, block_block (by omega), Nat.succ_mul]

/-! ## Sessions -/

theorem ata_address_eq (hsize : size < 2 ^ 32) (h : (lba.toNat + n) * 512 ≤ size) :
    ata_address lba = lba.toNat :=
  Nat.mod_eq_of_lt (by omega)

/-- A copy out of the image leaves the image as it was. -/
theorem imageDisk_block_out {src k : ℕ} (h : ptr + k ≤ image_storage ∨ image_storage + size ≤ ptr) :
    imageDisk image_storage size (block m ptr src k) = imageDisk image_storage size m := by
  funext a
  unfold imageDisk block
  by_cases ha : a < size
  · have hout : ¬ (ptr ≤ image_storage + a ∧ image_storage + a < ptr + k) := by omega
    rw [if_pos ha, if_pos ha, if_neg hout]
  · rw [if_neg ha, if_neg ha]

/-- A copy into the buffer, seen from the buffer. -/
theorem bufferAt_block {src k : ℕ} : bufferAt (block m ptr src k) ptr k = bufferAt m src k := by
  funext a
  unfold bufferAt block
  by_cases ha : a < k
  · rw [if_pos ha, if_pos ha, if_pos (by omega), Nat.add_sub_cancel_left]
  · rw [if_neg ha, if_neg ha]

/-- A copy into the image leaves a buffer outside it as it was. -/
theorem bufferAt_block_in {dest src k : ℕ} (h : ptr + n ≤ dest ∨ dest + k ≤ ptr) :
    bufferAt (block m dest src k) ptr n = bufferAt m ptr n := by
  funext a
  unfold bufferAt block
  by_cases ha : a < n
  · rw [if_pos ha, if_pos ha, if_neg (by omega)]
  · rw [if_neg ha, if_neg ha]

/-- The blocks of the image, read as those of the drive. -/
theorem received_image (hsize : size < 2 ^ 32) (hin : (lba.toNat + n) * 512 ≤ size) :
    Ata.received (bufferAt m ptr (n * 512))
        (KeropOS.read_blocks (imageDisk image_storage size m) lba n) =
      bufferAt m (image_storage + lba.toNat * 512) (n * 512) := by
  have hlba : ata_address lba = lba.toNat := ata_address_eq hsize hin
  funext a
  unfold Ata.received KeropOS.read_blocks bufferAt imageDisk
  by_cases ha : a < n * 512
  · rw [dif_pos ha, if_pos ha]
    simp only [hlba]
    rw [if_pos (by omega), Nat.add_assoc]
  · rw [dif_neg ha, if_neg ha, if_neg ha]

/-- A copy into the image, as a write to the drive. -/
theorem write_image (hsize : size < 2 ^ 32) (hin : (lba.toNat + n) * 512 ≤ size) :
    KeropOS.write_blocks (imageDisk image_storage size m) lba n
        (fun i => bufferAt m ptr (n * 512) i) =
      imageDisk image_storage size (block m (image_storage + lba.toNat * 512) ptr (n * 512)) := by
  have hlba : ata_address lba = lba.toNat := ata_address_eq hsize hin
  funext a
  unfold KeropOS.write_blocks imageDisk block bufferAt
  simp only [hlba]
  by_cases ha : lba.toNat * 512 ≤ a ∧ a - lba.toNat * 512 < n * 512
  · rw [dif_pos ha, if_pos ha.2, if_pos (by omega), if_pos (by omega)]
    exact congrArg m (by omega)
  · rw [dif_neg ha]
    by_cases hs : a < size
    · rw [if_pos hs, if_pos hs, if_neg (by omega)]
    · rw [if_neg hs, if_neg hs]

set_option maxRecDepth 2000 in
/-- **One call of the image follows the disk model.** -/
theorem image_call_returns (hsize : size < 2 ^ 32) (c : ImageCall image_storage size) (m : Memory) :
    Ata.performOn (imageDisk image_storage size m) (c.blockCall m) =
      (c.buffer (c.perform m), imageDisk image_storage size (c.perform m)) := by
  obtain ⟨isWrite, ptr, lba, count, pos, inside, apart⟩ := c
  cases isWrite with
  | false =>
    simp only [ImageCall.blockCall, ImageCall.perform, ImageCall.buffer, Ata.performOn, if_false,
      Bool.false_eq_true]
    rw [read_blocks_eq hsize inside apart, imageDisk_block_out apart, bufferAt_block,
      received_image hsize inside]
  | true =>
    simp only [ImageCall.blockCall, ImageCall.perform, ImageCall.buffer, Ata.performOn, if_true]
    rw [write_blocks_eq hsize inside apart, bufferAt_block_in (by omega), write_image hsize inside]

/-- **The image's functions refine the disk model**, the one the port driver refines: what the
inserter does on the image, the kernel does on the drive. -/
theorem image_sessions_refine_disk {m' : Memory} {es : List (Ata.BlockCall × Buffer)}
    (h : Run (ImageStep image_storage imageSize) m es m') :
    Run Ata.DiskStep (imageDisk image_storage imageSize m) es (imageDisk image_storage imageSize m') := by
  have hstep : ∀ m e m', ImageStep image_storage imageSize m e m' →
      ∀ d, imageDisk image_storage imageSize m = d →
        ∃ d', Ata.DiskStep d e d' ∧ imageDisk image_storage imageSize m' = d' := by
    rintro m _ _ ⟨c, rfl, rfl⟩ _ rfl
    exact ⟨_, image_call_returns (by decide) c m, rfl⟩
  obtain ⟨d, hrun, rfl⟩ := h.simulate _ hstep rfl
  exact hrun

/-- Block 3 of an image at address 0 is written from a buffer behind the image. -/
def writeThree : ImageCall 0 imageSize where
  isWrite := true
  ptr := imageSize
  logical_block_address := 3
  block_count := 1
  pos := by decide
  inside := by decide
  apart := by decide

theorem image_sessions_refine_disk_write :
    Run Ata.DiskStep (imageDisk 0 imageSize 0)
      [(writeThree.blockCall 0, writeThree.buffer (writeThree.perform 0))]
      (imageDisk 0 imageSize (writeThree.perform 0)) :=
  image_sessions_refine_disk (.single ⟨writeThree, rfl, rfl⟩)

end Inserter

end KeropOS
