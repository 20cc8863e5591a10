import KeropOS.Fat.Disk
import KeropOS.Fat.Driver
import KeropOS.Lib.Pio
import KeropOS.Lib.Transition

/-!
# The ATA driver

`disk.c` on the ports: it waits until the drive is not busy, fills in the task file, gives the
command and moves the sectors word by word. The drive is a parameter that follows the PIO protocol
and may take any bounded time over each sector.

* `Ata.read_blocks`, `Ata.write_blocks`: the port driver;
* **`Ata.read_blocks_returns`**, **`Ata.write_blocks_returns`**: one call against the disk model;
* **`Ata.port_sessions_refine_disk`**: sessions of calls against it.
-/

namespace KeropOS

open Packed Pio Transition

namespace Ata

variable {σ : Type*} (D : Device σ)

/-! ## The driver -/

/-- `while (in(0x1F7) & ATA_STATUS_BSY);` -/
def ATA_busy_wait : (fuel : ℕ) → σ → Option σ
  | 0, _ => none
  | fuel + 1, s =>
    if (D.in8 0x1F7 s).1 &&& 0x80 ≠ 0 then ATA_busy_wait fuel (D.in8 0x1F7 s).2
    else some (D.in8 0x1F7 s).2

/-- `while (!(in(0x1F7) & ATA_STATUS_RDY));`: despite the name, the ready bit and not the data
request bit is what it waits for. -/
def ATA_DRQ_wait : (fuel : ℕ) → σ → Option σ
  | 0, _ => none
  | fuel + 1, s =>
    if (D.in8 0x1F7 s).1 &&& 0x40 = 0 then ATA_DRQ_wait fuel (D.in8 0x1F7 s).2
    else some (D.in8 0x1F7 s).2

/-- Master drive, LBA mode, and bits 24 to 27 of the address. -/
def drive_select (logical_block_address : UInt32) : UInt8 :=
  ((0xE0 : UInt32) ||| ((logical_block_address >>> 24) &&& 0xF)).toUInt8

/-- The six `out`s that both transfers begin with; the last gives the command. -/
def command (logical_block_address : UInt32) (block_count c : UInt8) (s : σ) : σ :=
  D.out8 0x1F7 c
    (D.out8 0x1F5 (logical_block_address >>> 16).toUInt8
      (D.out8 0x1F4 (logical_block_address >>> 8).toUInt8
        (D.out8 0x1F3 logical_block_address.toUInt8
          (D.out8 0x1F2 block_count
            (D.out8 0x1F6 (drive_select logical_block_address) s)))))

/-- `for (j …) target[j] = in16(0x1F0)`, for `n` more words. -/
def in_words (target : ℕ) : (n j : ℕ) → Buffer × σ → Buffer × σ
  | 0, _, x => x
  | n + 1, j, (ptr, s) =>
    in_words target n (j + 1) (setWord ptr (target + j) (D.in16 0x1F0 s).1, (D.in16 0x1F0 s).2)

/-- The block loop of `read_blocks`, for `n` more blocks; `target` is advanced by a block each
time. -/
def read_loop (fuel : ℕ) : (n target : ℕ) → Buffer × σ → Option (Buffer × σ)
  | 0, _, x => some x
  | n + 1, target, (ptr, s) => do
    let s ← ATA_busy_wait D fuel s
    let s ← ATA_DRQ_wait D fuel s
    read_loop fuel n (target + 256) (in_words D target 256 0 (ptr, s))

def read_blocks (fuel : ℕ) (ptr : Buffer) (logical_block_address : UInt32) (block_count : UInt8)
    (s : σ) : Option (Buffer × σ) := do
  let s ← ATA_busy_wait D fuel s
  read_loop D fuel block_count.toNat 0 (ptr, command D logical_block_address block_count 0x20 s)

/-- `for (j …) out16(0x1F0, ((uint16_t *)ptr)[HALF_BLOCK_SIZE * i + j])`, for `n` more words. -/
def out_words (ptr : Buffer) (i : ℕ) : (n j : ℕ) → σ → σ
  | 0, _, s => s
  | n + 1, j, s => out_words ptr i n (j + 1) (D.out16 0x1F0 (word ptr (256 * i + j)) s)

/-- The block loop of `write_blocks`, for `n` more blocks from block `i` on. -/
def write_loop (fuel : ℕ) (ptr : Buffer) : (n i : ℕ) → σ → Option σ
  | 0, _, s => some s
  | n + 1, i, s => do
    let s ← ATA_busy_wait D fuel s
    let s ← ATA_DRQ_wait D fuel s
    write_loop fuel ptr n (i + 1) (out_words D ptr i 256 0 s)

def write_blocks (fuel : ℕ) (ptr : Buffer) (logical_block_address : UInt32) (block_count : UInt8)
    (s : σ) : Option σ := do
  let s ← ATA_busy_wait D fuel s
  write_loop D fuel ptr block_count.toNat 0 (command D logical_block_address block_count 0x30 s)

/-! ## The waits -/

variable {D} {view : σ → Drive} {busy : σ → ℕ} {patience fuel : ℕ} {s : σ}

/-- **The driver waits the drive out.** -/
theorem busy_wait_ends (hD : Follows D view busy patience) (hs : busy s < fuel) :
    ∃ t, ATA_busy_wait D fuel s = some t ∧ view t = view s ∧ busy t = 0 := by
  induction fuel generalizing s with
  | zero => exact absurd hs (Nat.not_lt_zero _)
  | succ fuel ih =>
    unfold ATA_busy_wait
    have hnext := hD.status_next s
    by_cases h : busy s = 0
    · rw [if_neg (not_not.mpr ((hD.status_busy s).mpr h))]
      exact ⟨_, rfl, hD.status_view s, by omega⟩
    · rw [if_pos fun h0 => h ((hD.status_busy s).mp h0)]
      obtain ⟨t, ht, hv, hb⟩ := ih (s := (D.in8 0x1F7 s).2) (by omega)
      exact ⟨t, ht, hv.trans (hD.status_view s), hb⟩

/-- Both waits before a sector. -/
theorem waits_end (hD : Follows D view busy patience) (hf : patience < fuel) (s : σ) :
    ∃ t u, ATA_busy_wait D fuel s = some t ∧ ATA_DRQ_wait D fuel t = some u ∧
      view u = view s ∧ busy u = 0 := by
  obtain ⟨t, ht, hv, hb⟩ := busy_wait_ends hD ((hD.busy_le s).trans_lt hf)
  obtain ⟨fuel, rfl⟩ : ∃ k, fuel = k + 1 := ⟨fuel - 1, by omega⟩
  have hnext := hD.status_next t
  refine ⟨t, (D.in8 0x1F7 t).2, ht, ?_, (hD.status_view t).trans hv, by omega⟩
  unfold ATA_DRQ_wait
  exact if_neg (hD.status_ready t hb)

/-! ## The task file -/

/-- The drive with its task file filled in. -/
def tasked (d : Drive) (logical_block_address : UInt32) (block_count : UInt8) : Drive :=
  { d with
    select := drive_select logical_block_address
    count := block_count
    low := logical_block_address.toUInt8
    mid := (logical_block_address >>> 8).toUInt8
    high := (logical_block_address >>> 16).toUInt8 }

theorem view_command (hD : Follows D view busy patience) (hs : busy s = 0)
    (hidle : (view s).transfer = .idle) (lba : UInt32) (count c : UInt8) :
    view (command D lba count c s) =
      { tasked (view s) lba count with transfer := (tasked (view s) lba count).command c } := by
  have b6 := hD.out8_busy s 0x1F6 (drive_select lba) hs (by decide)
  have b2 := hD.out8_busy _ 0x1F2 count b6 (by decide)
  have b3 := hD.out8_busy _ 0x1F3 lba.toUInt8 b2 (by decide)
  have b4 := hD.out8_busy _ 0x1F4 (lba >>> 8).toUInt8 b3 (by decide)
  have b5 := hD.out8_busy _ 0x1F5 (lba >>> 16).toUInt8 b4 (by decide)
  have v6 := hD.out8_view s 0x1F6 (drive_select lba) hs hidle
  have v2 := hD.out8_view _ 0x1F2 count b6 (by rw [v6]; exact hidle)
  have v3 := hD.out8_view _ 0x1F3 lba.toUInt8 b2 (by rw [v2, v6]; exact hidle)
  have v4 := hD.out8_view _ 0x1F4 (lba >>> 8).toUInt8 b3 (by rw [v3, v2, v6]; exact hidle)
  have v5 := hD.out8_view _ 0x1F5 (lba >>> 16).toUInt8 b4 (by rw [v4, v3, v2, v6]; exact hidle)
  rw [command, hD.out8_view _ 0x1F7 c b5 (by rw [v5, v4, v3, v2, v6]; exact hidle), v5, v4, v3,
    v2, v6]
  rfl

theorem drive_select_low (lba : UInt32) :
    (drive_select lba).toNat % 2 ^ 4 = lba.toNat / 2 ^ 24 % 2 ^ 4 := by
  have h15 (n : ℕ) : n &&& 15 = n % 16 := Nat.and_two_pow_sub_one_eq_mod n 4
  simp only [drive_select, UInt32.toNat_toUInt8, UInt32.toNat_or, UInt32.toNat_and,
    UInt32.toNat_shiftRight, UInt32.reduceToNat, Nat.reduceMod, Nat.shiftRight_eq_div_pow]
  rw [Nat.mod_mod_of_dvd _ (by decide), Nat.or_mod_two_pow]
  simp [h15]

/-- The five bytes the driver writes carry the low 28 bits of the address. -/
theorem address_tasked (d : Drive) (lba : UInt32) (count : UInt8) :
    (tasked d lba count).address = ata_address lba := by
  have hlow := drive_select_low lba
  have hlt := lba.toNat_lt
  simp only [Drive.address, tasked, ata_address, UInt32.toNat_toUInt8, UInt32.toNat_shiftRight,
    UInt32.reduceToNat, Nat.reduceMod, Nat.shiftRight_eq_div_pow]
  omega

/-! ## One sector -/

/-- **One sector into memory**: `k` words have come in already, `n` more of the sector follow,
and `r` words belong to later sectors. -/
theorem in_words_eq (hD : Follows D view busy patience) (d : Drive) (p : Buffer) {n j target a k r : ℕ}
    (hr : r % 256 = 0) (hn : n ≤ 256) (hk : target + j = k)
    (hv : view s = { d with transfer := .read (a + k) (n + r) }) (hb : n ≠ 0 → busy s = 0) :
    ∃ t, in_words D target n j (copyWords p 0 d.bytes a k, s) = (copyWords p 0 d.bytes a (k + n), t) ∧
      view t = { d with transfer := .read (a + (k + n)) r } := by
  induction n generalizing j k s with
  | zero => exact ⟨s, rfl, by simpa using hv⟩
  | succ n ih =>
    have hs := hb (Nat.succ_ne_zero n)
    have htr : (view s).transfer = .read (a + k) (n + r + 1) := by
      rw [hv, Nat.add_right_comm]
    have hdata : (D.in16 0x1F0 s).1 = word d.bytes (a + k) := by
      rw [hD.in16_data s hs, Drive.data, htr, Transfer.read_succ, hv]
    have htaken : (view s).taken = { d with transfer := .read (a + (k + 1)) (n + r) } := by
      rw [Drive.taken, htr, Transfer.advance_read_succ, hv]
      rfl
    have hbusy : n ≠ 0 → busy (D.in16 0x1F0 s).2 = 0 := by
      intro h0
      apply hD.in16_busy s hs
      rw [htaken, Transfer.atSector_read]
      omega
    have hw := copyWords_succ p 0 d.bytes a k
    rw [Nat.zero_add] at hw
    obtain ⟨t, ht, hvt⟩ := ih (j := j + 1) (k := k + 1) (by omega) (by omega)
      ((hD.in16_view s hs).trans htaken) hbusy
    rw [show k + 1 + n = k + (n + 1) by omega] at ht hvt
    refine ⟨t, ?_, hvt⟩
    rw [in_words, hdata, hk, hw]
    exact ht

/-- **One sector onto the drive**: `k` words have gone out already, `n` more of the sector follow,
and `r` words belong to later sectors. -/
theorem out_words_eq (hD : Follows D view busy patience) (d : Drive) (ptr : Buffer)
    {n i j a k r : ℕ} (hr : r % 256 = 0) (hn : n ≤ 256) (hk : 256 * i + j = k)
    (hv : view s =
      { d with bytes := copyWords d.bytes a ptr 0 k, transfer := .write (a + k) (n + r) })
    (hb : n ≠ 0 → busy s = 0) :
    view (out_words D ptr i n j s) =
      { d with bytes := copyWords d.bytes a ptr 0 (k + n), transfer := .write (a + (k + n)) r } := by
  induction n generalizing j k s with
  | zero => simpa [out_words] using hv
  | succ n ih =>
    have hs := hb (Nat.succ_ne_zero n)
    have htr : (view s).transfer = .write (a + k) (n + r + 1) := by
      rw [hv, Nat.add_right_comm]
    have hw := copyWords_succ d.bytes a ptr 0 k
    rw [Nat.zero_add] at hw
    have hgiven : (view s).given (word ptr k) =
        { d with
          bytes := copyWords d.bytes a ptr 0 (k + 1), transfer := .write (a + (k + 1)) (n + r) } := by
      rw [Drive.given, htr, Transfer.write_succ]
      simp only [hv, hw]
      rfl
    have hbusy : n ≠ 0 → busy (D.out16 0x1F0 (word ptr k) s) = 0 := by
      intro h0
      apply hD.out16_busy s _ hs
      rw [hgiven, Transfer.atSector_write]
      omega
    have hrest := ih (j := j + 1) (k := k + 1) (by omega) (by omega)
      ((hD.out16_view s _ hs).trans hgiven) hbusy
    rw [show k + 1 + n = k + (n + 1) by omega] at hrest
    rw [out_words, hk]
    exact hrest

/-! ## All sectors -/

theorem read_loop_eq (hD : Follows D view busy patience) (hf : patience < fuel) (d : Drive)
    (p : Buffer) {n a k r : ℕ} (hr : r % 256 = 0)
    (hv : view s = { d with transfer := .read (a + k) (n * 256 + r) }) :
    ∃ t, read_loop D fuel n k (copyWords p 0 d.bytes a k, s) =
        some (copyWords p 0 d.bytes a (k + n * 256), t) ∧
      view t = { d with transfer := .read (a + (k + n * 256)) r } := by
  induction n generalizing k s with
  | zero => exact ⟨s, by simp [read_loop], by simpa using hv⟩
  | succ n ih =>
    obtain ⟨t, u, ht, hu, hvu, hbu⟩ := waits_end hD hf s
    have hvu' : view u = { d with transfer := .read (a + k) (256 + (n * 256 + r)) } := by
      rw [hvu, hv, show (n + 1) * 256 + r = 256 + (n * 256 + r) by omega]
    obtain ⟨w, hw, hvw⟩ := in_words_eq hD d p (j := 0) (r := n * 256 + r) (by omega) le_rfl
      (Nat.add_zero k) hvu' fun _ => hbu
    obtain ⟨z, hz, hvz⟩ := ih hvw
    rw [show k + 256 + n * 256 = k + (n + 1) * 256 by omega] at hz hvz
    refine ⟨z, ?_, hvz⟩
    rw [read_loop, ht, Option.bind_eq_bind, Option.bind_some, hu, Option.bind_some, hw]
    exact hz

theorem write_loop_eq (hD : Follows D view busy patience) (hf : patience < fuel) (d : Drive)
    (ptr : Buffer) {n a i r : ℕ} (hr : r % 256 = 0)
    (hv : view s =
      { d with bytes := copyWords d.bytes a ptr 0 (256 * i),
               transfer := .write (a + 256 * i) (n * 256 + r) }) :
    ∃ t, write_loop D fuel ptr n i s = some t ∧
      view t =
        { d with bytes := copyWords d.bytes a ptr 0 (256 * (i + n)),
                 transfer := .write (a + 256 * (i + n)) r } := by
  induction n generalizing i s with
  | zero => exact ⟨s, rfl, by simpa using hv⟩
  | succ n ih =>
    obtain ⟨t, u, ht, hu, hvu, hbu⟩ := waits_end hD hf s
    have hvu' : view u =
        { d with bytes := copyWords d.bytes a ptr 0 (256 * i),
                 transfer := .write (a + 256 * i) (256 + (n * 256 + r)) } := by
      rw [hvu, hv, show (n + 1) * 256 + r = 256 + (n * 256 + r) by omega]
    have hw := out_words_eq hD d ptr (j := 0) (r := n * 256 + r) (by omega) le_rfl
      (Nat.add_zero (256 * i)) hvu' fun _ => hbu
    rw [show 256 * i + 256 = 256 * (i + 1) by omega] at hw
    obtain ⟨z, hz, hvz⟩ := ih hw
    rw [show i + 1 + n = i + (n + 1) by omega] at hvz
    refine ⟨z, ?_, hvz⟩
    rw [write_loop, ht, Option.bind_eq_bind, Option.bind_some, hu, Option.bind_some]
    exact hz

/-! ## One call -/

/-- The memory at `ptr` with `n` bytes stored from its start on. -/
def received {n : ℕ} (ptr : Buffer) (b : Bytes n) : Buffer := fun a =>
  if h : a < n then b ⟨a, h⟩ else ptr a

theorem copyWords_read (p : Buffer) (d : Disk) (lba : UInt32) (n : ℕ) :
    copyWords p 0 d (ata_address lba * 256) (n * 256) = received p (KeropOS.read_blocks d lba n) := by
  funext a
  unfold copyWords received KeropOS.read_blocks
  by_cases h : a < n * 512
  · rw [if_pos (by omega), dif_pos h]
    exact congrArg d (by simp only; omega)
  · rw [if_neg (by omega), dif_neg h]

theorem copyWords_write (d : Disk) (ptr : Buffer) (lba : UInt32) (n : ℕ) :
    copyWords d (ata_address lba * 256) ptr 0 (n * 256) =
      KeropOS.write_blocks d lba n fun i => ptr i := by
  funext a
  unfold copyWords KeropOS.write_blocks
  by_cases h : ata_address lba * 512 ≤ a ∧ a - ata_address lba * 512 < n * 512
  · rw [if_pos (by omega), dif_pos h]
    exact congrArg ptr (by simp only; omega)
  · rw [if_neg (by omega), dif_neg h]

/-- The sectors that a command asks for and the driver does not move: it takes a count of 0 for
none, the drive takes it for 256. -/
def unmoved (block_count : UInt8) : ℕ := if block_count = 0 then 256 else 0

theorem sectors_tasked (d : Drive) (lba : UInt32) (count : UInt8) :
    (tasked d lba count).sectors = count.toNat + unmoved count := by
  unfold Drive.sectors unmoved
  by_cases h : count = 0
  · subst h
    rfl
  · rw [if_neg h, Nat.add_zero]
    exact if_neg h

/-- **`read_blocks` returns the blocks of the disk** and leaves the drive with what it did not
move still to read. -/
theorem read_blocks_returns (hD : Follows D view busy patience) (hf : patience < fuel)
    (hidle : (view s).transfer = .idle) (ptr : Buffer) (lba : UInt32) (count : UInt8) :
    ∃ t, read_blocks D fuel ptr lba count s =
        some (received ptr (KeropOS.read_blocks (view s).bytes lba count.toNat), t) ∧
      (view t).bytes = (view s).bytes ∧
      (view t).transfer =
        .read ((ata_address lba + count.toNat) * 256) (unmoved count * 256) := by
  obtain ⟨t, ht, hvt, hbt⟩ := busy_wait_ends hD ((hD.busy_le s).trans_lt hf)
  have hc := view_command hD hbt (by rw [hvt]; exact hidle) lba count 0x20
  have htr : (tasked (view t) lba count).command 0x20 =
      .read (ata_address lba * 256) (count.toNat * 256 + unmoved count * 256) := by
    rw [Drive.command, if_pos rfl, address_tasked, sectors_tasked, Nat.add_mul]
  rw [htr] at hc
  obtain ⟨u, hu, hvu⟩ := read_loop_eq hD hf (tasked (view t) lba count) ptr
    (n := count.toNat) (a := ata_address lba * 256) (k := 0) (Nat.mul_mod_left (unmoved count) 256)
    (by rw [hc, Nat.add_zero])
  rw [copyWords_zero, Nat.zero_add] at hu
  refine ⟨u, ?_, ?_, ?_⟩
  · rw [read_blocks, ht, Option.bind_eq_bind, Option.bind_some, hu, ← hvt]
    exact congrArg (fun b => some (b, u)) (copyWords_read ptr (view t).bytes lba count.toNat)
  · rw [hvu, ← hvt]
    rfl
  · rw [hvu, Nat.add_mul, Nat.zero_add]

/-- **`write_blocks` writes the blocks of the disk**, and leaves the drive with what it did not
move still to write. -/
theorem write_blocks_returns (hD : Follows D view busy patience) (hf : patience < fuel)
    (hidle : (view s).transfer = .idle) (ptr : Buffer) (lba : UInt32) (count : UInt8) :
    ∃ t, write_blocks D fuel ptr lba count s = some t ∧
      (view t).bytes = KeropOS.write_blocks (view s).bytes lba count.toNat (fun i => ptr i) ∧
      (view t).transfer =
        .write ((ata_address lba + count.toNat) * 256) (unmoved count * 256) := by
  obtain ⟨t, ht, hvt, hbt⟩ := busy_wait_ends hD ((hD.busy_le s).trans_lt hf)
  have hc := view_command hD hbt (by rw [hvt]; exact hidle) lba count 0x30
  have htr : (tasked (view t) lba count).command 0x30 =
      .write (ata_address lba * 256) (count.toNat * 256 + unmoved count * 256) := by
    rw [Drive.command, if_neg (by decide), if_pos rfl, address_tasked, sectors_tasked, Nat.add_mul]
  rw [htr] at hc
  obtain ⟨u, hu, hvu⟩ := write_loop_eq hD hf (tasked (view t) lba count) ptr
    (n := count.toNat) (a := ata_address lba * 256) (i := 0) (Nat.mul_mod_left (unmoved count) 256)
    (by rw [hc, Nat.mul_zero, copyWords_zero, Nat.add_zero])
  rw [Nat.zero_add, Nat.mul_comm 256 count.toNat] at hvu
  refine ⟨u, ?_, ?_, ?_⟩
  · rw [write_blocks, ht, Option.bind_eq_bind, Option.bind_some, hu]
  · rw [hvu, ← copyWords_write, ← hvt]
    rfl
  · rw [hvu, Nat.add_mul]

/-! ## Sessions -/

/-- A call for blocks of the disk, at least one. -/
structure Blocks where
  ptr : Buffer
  logical_block_address : UInt32
  block_count : UInt8
  pos : block_count ≠ 0

inductive BlockCall
  | read (b : Blocks)
  | write (b : Blocks)

/-- A call on the ports: the memory at `ptr` and the device after it. -/
def perform (D : Device σ) (fuel : ℕ) (s : σ) : BlockCall → Option (Buffer × σ)
  | .read b => read_blocks D fuel b.ptr b.logical_block_address b.block_count s
  | .write b =>
    (write_blocks D fuel b.ptr b.logical_block_address b.block_count s).map fun t => (b.ptr, t)

/-- The same call on the disk model. -/
def performOn (d : Disk) : BlockCall → Buffer × Disk
  | .read b =>
    (received b.ptr (KeropOS.read_blocks d b.logical_block_address b.block_count.toNat), d)
  | .write b =>
    (b.ptr, KeropOS.write_blocks d b.logical_block_address b.block_count.toNat fun i => b.ptr i)

def PortStep (D : Device σ) (fuel : ℕ) (s : σ) (event : BlockCall × Buffer) (t : σ) : Prop :=
  perform D fuel s event.1 = some (event.2, t)

def DiskStep (d : Disk) (event : BlockCall × Buffer) (d' : Disk) : Prop :=
  performOn d event.1 = (event.2, d')

/-- **One call follows the disk model** and leaves the drive idle. -/
theorem perform_returns (hD : Follows D view busy patience) (hf : patience < fuel)
    (hidle : (view s).transfer = .idle) (call : BlockCall) :
    ∃ buf t, perform D fuel s call = some (buf, t) ∧
      performOn (view s).bytes call = (buf, (view t).bytes) ∧ (view t).transfer = .idle := by
  cases call with
  | read b =>
    obtain ⟨t, ht, hbytes, htr⟩ :=
      read_blocks_returns hD hf hidle b.ptr b.logical_block_address b.block_count
    rw [unmoved, if_neg b.pos] at htr
    exact ⟨_, t, ht, by rw [hbytes]; rfl, htr⟩
  | write b =>
    obtain ⟨t, ht, hbytes, htr⟩ :=
      write_blocks_returns hD hf hidle b.ptr b.logical_block_address b.block_count
    rw [unmoved, if_neg b.pos] at htr
    exact ⟨_, t, by rw [perform, ht]; rfl, by rw [hbytes]; rfl, htr⟩

/-- **The port driver refines the disk model**, for whole sessions of calls. -/
theorem port_sessions_refine_disk (hD : Follows D view busy patience) (hf : patience < fuel)
    (hidle : (view s).transfer = .idle) (calls : List BlockCall) :
    ∃ es t, es.map Prod.fst = calls ∧ Run (PortStep D fuel) s es t ∧
      Run DiskStep (view s).bytes es (view t).bytes ∧ (view t).transfer = .idle := by
  have hprogress : ∀ s call, (view s).transfer = .idle →
      ∃ e t, Prod.fst e = call ∧ PortStep D fuel s e t ∧ (view t).transfer = .idle := by
    intro s call hs
    obtain ⟨buf, t, ht, -, hidle⟩ := perform_returns hD hf hs call
    exact ⟨(call, buf), t, rfl, ht, hidle⟩
  have hsimulate : ∀ s e t, PortStep D fuel s e t → ∀ d, (view s).bytes = d ∧ (view s).transfer = .idle →
      ∃ d', DiskStep d e d' ∧ (view t).bytes = d' ∧ (view t).transfer = .idle := by
    intro s e t hstep d hs
    obtain ⟨buf, u, hu, hdisk, hidle⟩ := perform_returns hD hf hs.2 e.1
    obtain ⟨rfl, rfl⟩ := Prod.mk.inj (Option.some.inj (hu.symm.trans hstep))
    exact ⟨_, by rw [← hs.1]; exact hdisk, rfl, hidle⟩
  obtain ⟨es, t, hes, hrun, hidle'⟩ := Run.exists_of_progress _ Prod.fst hprogress hidle calls
  obtain ⟨d, hdisk, rfl, -⟩ := hrun.simulate _ hsimulate ⟨rfl, hidle⟩
  exact ⟨es, t, hes, hrun, hdisk, hidle'⟩

/-- A blank drive with no transfer under way. -/
def freshDrive : Drive := ⟨0, 0, 0, 0, 0, 0, .idle⟩

/-- Block 5 is written and read back from a drive that is busy for three status reads. -/
theorem port_sessions_refine_disk_slow :
    ∃ es t, es.map Prod.fst =
        [.write ⟨fun _ => 7, 5, 1, by decide⟩, .read ⟨0, 5, 1, by decide⟩] ∧
      Run (PortStep (slowDrive 3) 4) (freshDrive, 0) es t ∧
      Run DiskStep freshDrive.bytes es t.1.bytes ∧ t.1.transfer = .idle :=
  port_sessions_refine_disk (follows_slowDrive 3) (by decide) rfl _

end Ata

end KeropOS
