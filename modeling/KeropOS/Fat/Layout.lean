import KeropOS.Lib.Packed
import Mathlib.Data.UInt

/-!
# The on-disk data of the file system

The constants and packed records of `header/filesystem/fat32.h`, with their byte layouts.

* `FAT32DirectoryEntry`, `FAT32DirectoryTable` and `fat_table` with their `Layout`s, fields in the
  order of the C structs;
* `FAT32DirectoryEntry.cluster`: the cluster number split over `cluster_high` and `cluster_low`;
* `memcmp`, the comparison all lookups use.

The sizes are written out: `BLOCK_SIZE` is 512, `CLUSTER_BLOCK_COUNT` 4, `CLUSTER_SIZE` 2048,
`CLUSTER_MAP_SIZE` 512, and a directory table has `CLUSTER_SIZE / 32 = 64` entries.
-/

namespace KeropOS

open Packed

def CLUSTER_0_VALUE : UInt32 := 0x0FFFFFF0
def CLUSTER_1_VALUE : UInt32 := 0x0FFFFFFF
def FAT32_FAT_END_OF_FILE : UInt32 := 0x0FFFFFFF
def FAT32_FAT_EMPTY_ENTRY : UInt32 := 0
def FAT_CLUSTER_NUMBER : UInt32 := 1
def ROOT_CLUSTER_NUMBER : UInt32 := 2

def ATTR_SUBDIRECTORY : UInt8 := 0b00010000
def UATTR_NOT_EMPTY : UInt8 := 0b10101010
def ATTR_ARCHIVE : UInt8 := 0b00100000

/-- The bytes of one cluster. -/
abbrev Cluster := Bytes 2048

/-! ## Directory entries -/

structure FAT32DirectoryEntry where
  name : Bytes 8
  ext : Bytes 3
  /-- `attribute`, a keyword here. -/
  attr : UInt8
  user_attribute : UInt8
  undelete : UInt8
  create_time : UInt16
  create_date : UInt16
  access_date : UInt16
  cluster_high : UInt16
  modified_time : UInt16
  modified_date : UInt16
  cluster_low : UInt16
  filesize : UInt32
  deriving DecidableEq

namespace FAT32DirectoryEntry

/-- The fields in the order of the packed struct. -/
def equivProd : Bytes 8 × Bytes 3 × UInt8 × UInt8 × UInt8 × UInt16 × UInt16 × UInt16 × UInt16 ×
    UInt16 × UInt16 × UInt16 × UInt32 ≃ FAT32DirectoryEntry where
  toFun := fun (n, x, a, u, d, t1, t2, t3, h, t4, t5, l, s) => ⟨n, x, a, u, d, t1, t2, t3, h, t4, t5, l, s⟩
  invFun e := (e.name, e.ext, e.attr, e.user_attribute, e.undelete, e.create_time,
    e.create_date, e.access_date, e.cluster_high, e.modified_time, e.modified_date, e.cluster_low,
    e.filesize)
  left_inv _ := rfl
  right_inv _ := rfl

/-- The 32 bytes of an entry. -/
def layout : Layout FAT32DirectoryEntry 32 :=
  ((bytes 8).pair <| (bytes 3).pair <| byte.pair <| byte.pair <| byte.pair <| u16.pair <|
    u16.pair <| u16.pair <| u16.pair <| u16.pair <| u16.pair <| u16.pair u32).map equivProd

/-- The entry `memset` to zero. -/
def zero : FAT32DirectoryEntry := ⟨0, 0, 0, 0, 0, 0, 0, 0, 0, 0, 0, 0, 0⟩

instance : Zero FAT32DirectoryEntry := ⟨zero⟩

/-- `(cluster_high << 16) | cluster_low`. -/
def cluster (e : FAT32DirectoryEntry) : UInt32 :=
  (e.cluster_high.toUInt32 <<< 16) ||| e.cluster_low.toUInt32

/-- The entry is in use. -/
def InUse (e : FAT32DirectoryEntry) : Prop := e.user_attribute = UATTR_NOT_EMPTY

instance (e : FAT32DirectoryEntry) : Decidable e.InUse :=
  inferInstanceAs (Decidable (e.user_attribute = UATTR_NOT_EMPTY))

end FAT32DirectoryEntry

/-- `(uint16_t)((i >> 16) & 0xFFFF)`. -/
def clusterHigh (i : UInt32) : UInt16 := ((i >>> 16) &&& 0xFFFF).toUInt16

/-- `(uint16_t)(i & 0xFFFF)`. -/
def clusterLow (i : UInt32) : UInt16 := (i &&& 0xFFFF).toUInt16

theorem high_or_low (i : UInt32) :
    ((clusterHigh i).toUInt32 <<< 16) ||| (clusterLow i).toUInt32 = i := by
  have hi := i.toNat_lt
  have hmask (n : ℕ) : n &&& 65535 = n % 65536 := Nat.and_two_pow_sub_one_eq_mod n 16
  have h1 : i.toNat >>> 16 = i.toNat / 65536 := Nat.shiftRight_eq_div_pow _ _
  have h2 : (i.toNat / 65536) <<< 16 < 4294967296 := by rw [Nat.shiftLeft_eq]; omega
  have h3 : i.toNat / 65536 % 65536 = i.toNat / 65536 := Nat.mod_eq_of_lt (by omega)
  apply UInt32.toNat_inj.mp
  simp only [clusterHigh, clusterLow, UInt32.toNat_or, UInt32.toNat_shiftLeft, UInt16.toNat_toUInt32,
    UInt32.toNat_toUInt16, UInt32.toNat_and, UInt32.toNat_shiftRight, UInt32.reduceToNat,
    Nat.reduceMod, hmask, h1, Nat.mod_mod, Nat.reducePow, h3]
  rw [Nat.mod_eq_of_lt h2, ← Nat.shiftLeft_add_eq_or_of_lt (Nat.mod_lt _ (by omega)),
    Nat.shiftLeft_eq]
  omega

/-! ## Tables -/

/-- The slots of a table have numerals. -/
instance neZero_slots : NeZero 64 := ⟨by decide⟩

/-- A directory table: one cluster of entries. -/
abbrev FAT32DirectoryTable := Fin 64 → FAT32DirectoryEntry

/-- The bytes of a directory table. -/
def tableLayout : Layout FAT32DirectoryTable 2048 := FAT32DirectoryEntry.layout.array 64

/-- The cells of a file allocation table. -/
abbrev ClusterMap := Fin 512 → UInt32

/-- The bytes of a file allocation table. -/
def fatLayout : Layout ClusterMap 2048 := u32.array 512

/-! ## `memcmp` -/

def memcmp : List UInt8 → List UInt8 → ℤ
  | a :: as, b :: bs => if a < b then -1 else if a > b then 1 else memcmp as bs
  | _, _ => 0

theorem memcmp_eq_zero : ∀ {as bs : List UInt8}, as.length = bs.length →
    (memcmp as bs = 0 ↔ as = bs)
  | [], [], _ => by simp [memcmp]
  | a :: as, b :: bs, h => by
    have ih := memcmp_eq_zero (show as.length = bs.length by simpa using h)
    rw [memcmp]
    split_ifs with h1 h2
    · have : a ≠ b := UInt8.ne_of_lt h1
      simp [this]
    · have : b ≠ a := UInt8.ne_of_lt h2
      simp [this.symm]
    · rw [ih, show a = b from UInt8.le_antisymm (UInt8.not_lt.mp h2) (UInt8.not_lt.mp h1)]
      simp

/-- `memcmp` of two arrays of one length finds no difference. -/
def sameBytes {n : ℕ} (a b : Bytes n) : Bool := memcmp (List.ofFn a) (List.ofFn b) == 0

@[simp] theorem sameBytes_iff {n : ℕ} {a b : Bytes n} : sameBytes a b = true ↔ a = b := by
  rw [sameBytes, beq_iff_eq, memcmp_eq_zero (by simp), List.ofFn_inj]

end KeropOS
