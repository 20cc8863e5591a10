import Mathlib.Data.UInt
import Mathlib.Logic.Function.Basic
import Mathlib.Data.Fin.Basic

/-!
# Paging

The page frame map, the page directories and CR3: the functions of `paging.c` that processes use. A
directory is named by its index in `page_directory_list` where the code cannot have any other, and
by its address where it comes from a process control block or from CR3.

* `Linkage`: the addresses the linker chose;
* `paging_allocate_user_page_frame`, `paging_create_new_page_directory`,
  `paging_free_page_directory`, `paging_use_page_directory`;
* `toNat_dir`, `dir_injective`, `Junk`: the directory pointers that occur.
-/

namespace KeropOS

def PAGE_FRAME_SIZE : UInt32 := 0x400000
def KERNEL_VIRTUAL_ADDRESS_BASE : UInt32 := 0xC0000000

/-! ## Data -/

/-- Frames, directories and their entries have numerals. -/
instance neZero_frames : NeZero 32 := ⟨by decide⟩
instance neZero_entries : NeZero 1024 := ⟨by decide⟩

structure PageDirectoryEntryFlag where
  present_bit : Bool := false
  write_bit : Bool := false
  user_bit : Bool := false
  write_through_bit : Bool := false
  cache_disable_bit : Bool := false
  accessed_bit : Bool := false
  dirty_bit : Bool := false
  use_pagesize_4_mb : Bool := false
  deriving DecidableEq

/-- A page directory entry; no code sets its other bits, from `global_page` to `reserved_2`. -/
structure PageDirectoryEntry where
  flag : PageDirectoryEntryFlag := {}
  lower_address : Fin 1024 := 0
  deriving DecidableEq

abbrev PageDirectory := Fin 1024 → PageDirectoryEntry

/-- The addresses of `page_directory_list` and of `_paging_kernel_page_directory`, and the kernel
stack pointer at `pushad` in the interrupt stub. The linker script puts the kernel at
`0xC0100000`, and the directories are aligned to a page. -/
structure Linkage where
  page_directory_list : UInt32
  kernel_directory : UInt32
  kernel_esp : UInt32
  high : 0xC0100000 ≤ page_directory_list.toNat
  fits : page_directory_list.toNat + 32 * 4096 ≤ 2 ^ 32

/-- `page_manager_state`, `page_directory_list`, `page_directory_manager` and CR3. -/
structure Paging where
  page_frame_map : Fin 32 → Bool
  free_page_frame_count : UInt32
  page_directory_list : Fin 32 → PageDirectory
  page_directory_used : Fin 32 → Bool
  cr3 : UInt32

/-- `&page_directory_list[i]`. -/
def Linkage.dir (L : Linkage) (i : Fin 32) : UInt32 := L.page_directory_list + UInt32.ofNat (4096 * i)

/-- The entry of the page of an address: `(virtual_addr >> 22) & 0x3FF`. -/
def pageIndex (virtual_addr : UInt32) : Fin 1024 := Fin.ofNat 1024 (virtual_addr.toNat / 2 ^ 22)

/-- The page frames at boot: the kernel has frame 0. -/
def Paging.initial (L : Linkage) : Paging where
  page_frame_map i := i = 0
  free_page_frame_count := 31
  page_directory_list _ _ := {}
  page_directory_used _ := false
  cr3 := L.kernel_directory - KERNEL_VIRTUAL_ADDRESS_BASE

/-! ## Functions -/

def update_page_directory_entry (table : PageDirectory) (physical_addr virtual_addr : UInt32)
    (flag : PageDirectoryEntryFlag) : PageDirectory :=
  Function.update table (pageIndex virtual_addr)
    { flag := flag, lower_address := Fin.ofNat 1024 (physical_addr.toNat / 2 ^ 22) }

/-- The `float` next to an integer: 24 bits of it, ties to even. -/
def float (n : ℕ) : ℕ :=
  let ulp := 2 ^ (Nat.log2 n - 23)
  if 2 * (n % ulp) < ulp ∨ 2 * (n % ulp) = ulp ∧ n / ulp % 2 = 0 then n / ulp * ulp
  else (n / ulp + 1) * ulp

/-- `⌈(float)request / target⌉` for a `target` that is a power of two, so that the quotient is a
`float` again. -/
def ceil_div (request target : UInt32) : ℕ := (float request.toNat + target.toNat - 1) / target.toNat

def paging_allocate_check (p : Paging) (amount : ℕ) : Bool :=
  -- `ceil32(amount / (float)PAGE_FRAME_SIZE)`
  p.free_page_frame_count.toNat ≥ (float amount + 0x400000 - 1) / 0x400000

def paging_allocate_user_page_frame (p : Paging) (page_dir : Fin 32) (virtual_addr : UInt32) : Bool × Paging :=
  match Fin.find? fun i : Fin 32 => decide (1 ≤ i.val) && !p.page_frame_map i with
  | some i =>
    (true, { p with
      page_frame_map := Function.update p.page_frame_map i true
      page_directory_list := Function.update p.page_directory_list page_dir
        (update_page_directory_entry (p.page_directory_list page_dir) (PAGE_FRAME_SIZE * UInt32.ofNat i)
          virtual_addr
          { present_bit := true, write_bit := true, user_bit := true, use_pagesize_4_mb := true })
      free_page_frame_count := p.free_page_frame_count - 1 })
  | none => (true, p)

/-- The entry of the kernel's higher half. -/
def kernelEntry : PageDirectoryEntry where
  flag := { present_bit := true, write_bit := true, use_pagesize_4_mb := true }
  lower_address := 0

def paging_create_new_page_directory (p : Paging) : Option (Fin 32 × Paging) :=
  match Fin.find? fun i => !p.page_directory_used i with
  | some i =>
    some (i, { p with
      page_directory_used := Function.update p.page_directory_used i true
      page_directory_list := Function.update p.page_directory_list i
        (Function.update (p.page_directory_list i) 0x300 kernelEntry) })
  | none => none

/-- The loop of `paging_free_page_directory`. -/
def free_page_directory_loop (L : Linkage) (p : Paging) (page_dir : UInt32) : List (Fin 32) → Bool × Paging
  | [] => (false, p)
  | i :: _ =>
    -- `return true` stands inside the loop
    (true,
      if L.dir i = page_dir then
        { p with
          page_directory_used := Function.update p.page_directory_used i false
          page_directory_list := Function.update p.page_directory_list i fun _ => {} }
      else p)

def paging_free_page_directory (L : Linkage) (p : Paging) (page_dir : UInt32) : Bool × Paging :=
  free_page_directory_loop L p page_dir (List.finRange 32)

def paging_get_current_page_directory_addr (p : Paging) : UInt32 := p.cr3 + KERNEL_VIRTUAL_ADDRESS_BASE

/-- What `paging_use_page_directory` moves to CR3. -/
def physical_addr_page_dir (page_dir_virtual_addr : UInt32) : UInt32 :=
  if page_dir_virtual_addr > KERNEL_VIRTUAL_ADDRESS_BASE then
    page_dir_virtual_addr - KERNEL_VIRTUAL_ADDRESS_BASE
  else page_dir_virtual_addr

def paging_use_page_directory (p : Paging) (page_dir_virtual_addr : UInt32) : Paging :=
  { p with cr3 := physical_addr_page_dir page_dir_virtual_addr }

section

variable (p : Paging) (a : UInt32)

-- not by `rfl`: unfolding an address is too much for the kernel
@[simp] theorem use_page_frame_map : (paging_use_page_directory p a).page_frame_map = p.page_frame_map := by
  rw [paging_use_page_directory]

@[simp] theorem use_free_page_frame_count :
    (paging_use_page_directory p a).free_page_frame_count = p.free_page_frame_count := by
  rw [paging_use_page_directory]

@[simp] theorem use_page_directory_list :
    (paging_use_page_directory p a).page_directory_list = p.page_directory_list := by
  rw [paging_use_page_directory]

@[simp] theorem use_page_directory_used :
    (paging_use_page_directory p a).page_directory_used = p.page_directory_used := by
  rw [paging_use_page_directory]

@[simp] theorem use_cr3 : (paging_use_page_directory p a).cr3 = physical_addr_page_dir a := by
  rw [paging_use_page_directory]

end

/-! ## Directory pointers -/

namespace Linkage

variable (L : Linkage)

theorem toNat_dir (i : Fin 32) : (L.dir i).toNat = L.page_directory_list.toNat + 4096 * i := by
  have h := L.fits
  have hi := i.isLt
  rw [dir, UInt32.toNat_add, UInt32.toNat_ofNat_of_lt' (by lia), Nat.mod_eq_of_lt (by lia)]

theorem dir_injective {i j : Fin 32} (h : L.dir i = L.dir j) : i = j := by
  have := congrArg UInt32.toNat h
  rw [L.toNat_dir, L.toNat_dir] at this
  exact Fin.ext (by omega)

end Linkage

/-- The pointers CR3 runs through from a null directory on. -/
def Junk (a : UInt32) : Prop := a = 0 ∨ a = 0xC0000000 ∨ a = 0x80000000 ∨ a = 0x40000000

/-- The address `paging_get_current_page_directory_addr` gives after `paging_use_page_directory`. -/
def reload (a : UInt32) : UInt32 := physical_addr_page_dir a + KERNEL_VIRTUAL_ADDRESS_BASE

theorem reload_dir (L : Linkage) (i : Fin 32) : reload (L.dir i) = L.dir i := by
  have h := L.toNat_dir i
  have := L.high
  rw [reload, physical_addr_page_dir, if_pos, UInt32.sub_add_cancel]
  rw [gt_iff_lt, UInt32.lt_iff_toNat_lt, h]
  exact lt_of_lt_of_le (show 0xC0000000 < 0xC0100000 by decide) (by omega)

theorem Junk.physical {a : UInt32} (h : Junk a) : physical_addr_page_dir a = a := by
  rcases h with rfl | rfl | rfl | rfl <;> rfl

/-- Reading CR3 back takes one of them to the next. -/
theorem Junk.add {a : UInt32} (h : Junk a) : Junk (a + KERNEL_VIRTUAL_ADDRESS_BASE) := by
  rcases h with rfl | rfl | rfl | rfl
  · exact .inr (.inl rfl)
  · exact .inr (.inr (.inl rfl))
  · exact .inr (.inr (.inr rfl))
  · exact .inl rfl

theorem Junk.ne_dir {a : UInt32} (h : Junk a) (L : Linkage) (i : Fin 32) : a ≠ L.dir i := by
  rintro rfl
  have hd := L.toNat_dir i
  have hh := L.high
  have hle : (L.dir i).toNat ≤ 0xC0000000 := by
    rcases h with h | h | h | h <;> rw [h] <;> decide
  lia

end KeropOS
