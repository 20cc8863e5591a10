import KeropOS.Fat.Layout

/-!
# The disk

`disk.c` moves 512-byte blocks between memory and the ATA drive, which takes a 28-bit block
address; `fat32.c` moves clusters of four blocks. The drive is modelled as its bytes.

* `read_blocks`, `write_blocks`, `read_clusters`, `write_clusters`;
* `clusterAt`: the bytes of one cluster, with **`clusterAt_write_clusters`**.
-/

namespace KeropOS

open Packed

/-- The bytes of the drive. -/
abbrev Disk := ℕ → UInt8

/-- The block address the drive sees: the four low bits of the drive-select port and the three
address ports carry 28 bits of `logical_block_address`. -/
def ata_address (logical_block_address : UInt32) : ℕ := logical_block_address.toNat % 2 ^ 28

def read_blocks (d : Disk) (logical_block_address : UInt32) (block_count : ℕ) :
    Bytes (block_count * 512) :=
  fun i => d (ata_address logical_block_address * 512 + i)

def write_blocks (d : Disk) (logical_block_address : UInt32) (block_count : ℕ)
    (ptr : Bytes (block_count * 512)) : Disk := fun a =>
  if h : ata_address logical_block_address * 512 ≤ a ∧
      a - ata_address logical_block_address * 512 < block_count * 512 then
    ptr ⟨a - ata_address logical_block_address * 512, h.2⟩
  else d a

def cluster_to_lba (cluster : UInt32) : UInt32 := cluster * 4

/-- Every call passes `cluster_count = 1`. -/
def read_clusters (d : Disk) (cluster_number : UInt32) : Cluster :=
  read_blocks d (cluster_to_lba cluster_number) 4

/-- Every call passes `cluster_count = 1`. -/
def write_clusters (d : Disk) (ptr : Cluster) (cluster_number : UInt32) : Disk :=
  write_blocks d (cluster_to_lba cluster_number) 4 ptr

/-! ## The disk as clusters -/

/-- The bytes of cluster `c`. -/
def clusterAt (d : Disk) (c : ℕ) : Cluster := fun i => d (c * 2048 + i)

theorem disk_ext {d d' : Disk} (h : ∀ k, clusterAt d k = clusterAt d' k) : d = d' := by
  funext a
  have := congrFun (h (a / 2048)) ⟨a % 2048, Nat.mod_lt a (by omega)⟩
  simp only [clusterAt, show a / 2048 * 2048 + a % 2048 = a by omega] at this
  exact this

/-- The cluster a 32-bit cluster number addresses. -/
def clusterIndex (c : UInt32) : ℕ := c.toNat % 2 ^ 26

theorem clusterIndex_of_lt {c : UInt32} (h : c.toNat < 512) :
    clusterIndex c = c.toNat := by
  simp only [clusterIndex]; omega

theorem ata_address_cluster (c : UInt32) :
    ata_address (cluster_to_lba c) = clusterIndex c * 4 := by
  simp only [ata_address, cluster_to_lba, clusterIndex, UInt32.toNat_mul, UInt32.reduceToNat]
  omega

theorem read_clusters_eq (d : Disk) (c : UInt32) : read_clusters d c = clusterAt d (clusterIndex c) := by
  funext i
  simp only [read_clusters, read_blocks, clusterAt, ata_address_cluster]
  exact congrArg d (by omega)

/-- **Writing a cluster changes that cluster only.** -/
theorem clusterAt_write_clusters (d : Disk) (v : Cluster) (c : UInt32) (k : ℕ) :
    clusterAt (write_clusters d v c) k = if k = clusterIndex c then v else clusterAt d k := by
  funext i
  have hi := i.isLt
  simp only [write_clusters, clusterAt, write_blocks, ata_address_cluster]
  by_cases hk : k = clusterIndex c
  · subst hk
    rw [dif_pos (by omega), if_pos rfl]
    exact congrArg v (Fin.ext (by simp only; omega))
  · rw [dif_neg (by omega), if_neg hk]
    rfl

/-- Block 0 is the first quarter of cluster 0. -/
theorem read_block_zero (d : Disk) (i : Fin (1 * 512)) :
    read_blocks d 0 1 i = clusterAt d 0 ⟨i, by omega⟩ := rfl

theorem read_write_block_zero (d : Disk) (b : Bytes (1 * 512)) :
    read_blocks (write_blocks d 0 1 b) 0 1 = b := by
  funext i
  simp only [read_blocks, write_blocks, Nat.le_add_right, Nat.add_sub_cancel_left, i.isLt, and_self,
    dif_pos]

end KeropOS
