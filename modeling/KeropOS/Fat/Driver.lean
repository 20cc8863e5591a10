import KeropOS.Fat.Disk

/-!
# The FAT32 driver

`fat32.c`, function by function. The state is the drive and `driver_state`; the requests of
`read`, `read_directory` and `write` carry the memory behind `request.buf`.

* `init_directory_table`, `is_empty_storage`, `create_fat32`, `initialize_filesystem_fat32`;
* `read_directory`, `read`, `write`, `delete`;
* `Call`, `exec`: one call of the driver, with its return code.

An access outside an array ends a call with `Trap.outOfBounds`. The one loop without a bound, in
`delete`, takes its fuel as an argument. `newDir`, the uninitialised table of `write`, is an
argument as well.
-/

namespace KeropOS

open Packed

/-- What keeps a call from returning. -/
inductive Trap
  | outOfBounds
  | outOfFuel
  deriving DecidableEq

/-- The memory from a buffer's first byte on. -/
abbrev Buffer := ℕ → UInt8

structure FAT32DriverState where
  cluster_map : ClusterMap
  dir_table_buf : FAT32DirectoryTable
  cluster_buf : Cluster

structure FAT32DriverRequest where
  buf : Buffer
  name : Bytes 8
  ext : Bytes 3
  parent_cluster_number : UInt32
  buffer_size : UInt32

/-- The drive and the driver's static state. -/
structure Fs where
  disk : Disk
  driver_state : FAT32DriverState

namespace Fs

/-- The cached file allocation table. -/
abbrev cluster_map (s : Fs) : ClusterMap := s.driver_state.cluster_map

end Fs

/-! ## Cells of the cached table -/

/-- `cluster_map[c]`. -/
def cell (m : ClusterMap) (c : ℕ) : UInt32 := if h : c < 512 then m ⟨c, h⟩ else 0

/-- `cluster_map[c] = v`. -/
def setCell (m : ClusterMap) (c : ℕ) (v : UInt32) : ClusterMap := fun i => if i.val = c then v else m i

/-- The word at index `i` of `cluster_map`, as the packed `driver_state` has it in memory: the one
after the last cell is the first of `dir_table_buf`. -/
def cluster_map_word (st : FAT32DriverState) (i : ℕ) : UInt32 :=
  if i < 512 then cell st.cluster_map i
  else cell (fatLayout.decode (tableLayout.encode st.dir_table_buf)) (i - 512)

/-! ## Initialisation -/

def init_directory_table (dir_table : FAT32DirectoryTable) (name : Bytes 8)
    (parent_dir_cluster : UInt32) : FAT32DirectoryTable :=
  Function.update dir_table 0
    { name := name
      ext := 0
      attr := ATTR_SUBDIRECTORY
      user_attribute := UATTR_NOT_EMPTY
      undelete := 0
      create_time := 0
      create_date := 0
      access_date := 0
      cluster_high := clusterHigh parent_dir_cluster
      modified_time := 0
      modified_date := 0
      cluster_low := clusterLow parent_dir_cluster
      filesize := 0 }

/-- The text at the start of `fs_signature`. -/
def signature_text : List Char :=
  ['C', 'o', 'u', 'r', 's', 'e', ' ', ' ', ' ', ' ', ' ', ' ', ' ', ' ', ' ', ' ',
   'D', 'e', 's', 'i', 'g', 'n', 'e', 'd', ' ', 'b', 'y', ' ', ' ', ' ', ' ', ' ',
   'L', 'a', 'b', ' ', 'S', 'i', 's', 't', 'e', 'r', ' ', 'I', 'T', 'B', ' ', ' ',
   'M', 'a', 'd', 'e', ' ', 'w', 'i', 't', 'h', ' ', '<', '3', ' ', ' ', ' ', ' ',
   '-', '-', '-', '-', '-', '-', '-', '-', '-', '-', '-', '2', '0', '2', '4', '\n']

def fs_signature : Bytes 512 := fun i =>
  if i.val = 510 then 79       -- 'O'
  else if i.val = 511 then 107 -- 'k'
  else (signature_text.map fun c => UInt8.ofNat c.toNat).getD i 0

/-- `"ROOT\0\0\0\0"`. -/
def root_name : Bytes 8 := ![82, 79, 79, 84, 0, 0, 0, 0]

def is_empty_storage (d : Disk) : Bool :=
  !sameBytes (read_blocks d 0 1) fs_signature

def create_fat32 (s : Fs) : Fs :=
  let disk := write_blocks s.disk 0 1 fs_signature
  let cluster_map := setCell (setCell (setCell s.cluster_map 0 CLUSTER_0_VALUE) 1 CLUSTER_1_VALUE) 2
    FAT32_FAT_END_OF_FILE
  let disk := write_clusters disk (fatLayout.encode cluster_map) 1
  let dir_table_buf := init_directory_table s.driver_state.dir_table_buf root_name ROOT_CLUSTER_NUMBER
  let disk := write_clusters disk (tableLayout.encode dir_table_buf) ROOT_CLUSTER_NUMBER
  { disk := disk
    driver_state := { s.driver_state with cluster_map := cluster_map, dir_table_buf := dir_table_buf } }

def initialize_filesystem_fat32 (s : Fs) : Fs :=
  if is_empty_storage s.disk then create_fat32 s
  else { s with driver_state.cluster_map := fatLayout.decode (read_clusters s.disk 1) }

/-! ## Reading -/

/-- Copy a cluster into a buffer. -/
def copyTo (buf : Buffer) (offset : ℕ) (src : Cluster) : Buffer := fun a =>
  if h : offset ≤ a ∧ a - offset < 2048 then src ⟨a - offset, h.2⟩ else buf a

def read_directory (s : Fs) (request : FAT32DriverRequest) : ℤ × Buffer :=
  if sameBytes request.name 0 then (-1, request.buf)
  else
    let dir_table := tableLayout.decode (read_clusters s.disk request.parent_cluster_number)
    match Fin.find? fun i => sameBytes (dir_table i).name request.name with
    | some i =>
      if (dir_table i).attr = ATTR_SUBDIRECTORY ∧ (dir_table i).filesize = 0 then
        (0, copyTo request.buf 0 (read_clusters s.disk (dir_table i).cluster))
      else (1, request.buf)
    | none => (2, request.buf)

/-- The `while` loop of `read`; its recursion is on `clusters_to_read`. It returns
`bytes_read_total` and the buffer. -/
def read_chain (s : Fs) : (clusters_to_read remaining_bytes : ℕ) → (current_cluster : UInt32) →
    (bytes_read_total : ℕ) → Buffer → Except Trap (ℕ × Buffer)
  | 0, _, _, bytes_read_total, buf => .ok (bytes_read_total, buf)
  | clusters_to_read + 1, remaining_bytes, current_cluster, bytes_read_total, buf =>
    if current_cluster = FAT32_FAT_END_OF_FILE then .ok (bytes_read_total, buf)
    else if current_cluster.toNat < 512 then
      let bytes_to_read := if remaining_bytes > 2048 then 2048 else remaining_bytes
      read_chain s clusters_to_read (remaining_bytes - bytes_to_read)
        (cell s.cluster_map current_cluster.toNat) (bytes_read_total + bytes_to_read)
        (copyTo buf bytes_read_total (read_clusters s.disk current_cluster))
    else .error .outOfBounds

/-- The entry has the name and extension of the request. -/
def keyMatches (request : FAT32DriverRequest) (e : FAT32DirectoryEntry) : Bool :=
  sameBytes request.name e.name && sameBytes request.ext e.ext

/-- The `for` loop of `read` over the slots still to look at. -/
def read_scan (s : Fs) (request : FAT32DriverRequest) (parent_table : FAT32DirectoryTable) :
    List (Fin 64) → Buffer → Except Trap (ℤ × Buffer)
  | [], buf => .ok (3, buf)
  | i :: slots, buf =>
    if keyMatches request (parent_table i) then
      let clusters_to_read := (request.buffer_size.toNat + 2047) % 2 ^ 32 / 2048
      match read_chain s clusters_to_read request.buffer_size.toNat (parent_table i).cluster 0 buf with
      | .error t => .error t
      | .ok (bytes_read_total, buf) =>
        if bytes_read_total / 2048 = request.buffer_size.toNat / 2048 then .ok (0, buf)
        else if bytes_read_total / 2048 > request.buffer_size.toNat / 2048 then .ok (2, buf)
        else read_scan s request parent_table slots buf
    else read_scan s request parent_table slots buf

def read (s : Fs) (request : FAT32DriverRequest) : Except Trap (ℤ × Buffer) :=
  if sameBytes request.name 0 then .ok (-1, request.buf)
  else if request.buffer_size = 0 then .ok (1, request.buf)
  else
    let parent_table := tableLayout.decode (read_clusters s.disk request.parent_cluster_number)
    read_scan s request parent_table (List.finRange 64).tail request.buf

/-! ## Writing -/

/-- The search loop of a folder write, from cell `i`; the cell is read before its index is
compared with the bound. -/
def find_folder_cell (st : FAT32DriverState) : (fuel i : ℕ) → ℕ
  | 0, i => i
  | fuel + 1, i =>
    if cluster_map_word st i ≠ FAT32_FAT_EMPTY_ENTRY ∧ i < 512 then find_folder_cell st fuel (i + 1)
    else i

/-- The search loop of a file write, from cell `k`. -/
def find_file_cells (m : ClusterMap) (n_cluster : ℕ) : (fuel k : ℕ) → (cluster_empty : List ℕ) → List ℕ
  | 0, _, cluster_empty => cluster_empty
  | fuel + 1, k, cluster_empty =>
    if cluster_empty.length < n_cluster ∧ k < 512 then
      if cell m k = FAT32_FAT_EMPTY_ENTRY then
        find_file_cells m n_cluster fuel (k + 1) (cluster_empty ++ [k])
      else find_file_cells m n_cluster fuel (k + 1) cluster_empty
    else cluster_empty

/-- The `size` bytes of a buffer from `offset` on, in a cluster of zeros. -/
def chunk (buf : Buffer) (offset size : ℕ) : Cluster := fun i => if i.val < size then buf (offset + i) else 0

/-- The store loop of a file write and the store after it: `buffer_size` bytes, from cluster `i`
of the buffer on, into the cells still to fill. -/
def store_clusters (buf : Buffer) : (cluster_empty : List ℕ) → (i buffer_size : ℕ) → Fs → Except Trap Fs
  | [], _, _, _ => .error .outOfBounds
  | [c], i, buffer_size, s =>
    -- the last `memcpy` into `cluster_buf`
    if buffer_size ≤ 2048 then
      .ok { disk := write_clusters s.disk (chunk buf (i * 2048) buffer_size) (UInt32.ofNat c)
            driver_state := { s.driver_state with
              cluster_map := setCell s.cluster_map c FAT32_FAT_END_OF_FILE
              cluster_buf := 0 } }
    else .error .outOfBounds
  | c :: c' :: cluster_empty, i, buffer_size, s =>
    store_clusters buf (c' :: cluster_empty) (i + 1) (buffer_size - 2048)
      { disk := write_clusters s.disk (chunk buf (i * 2048) 2048) (UInt32.ofNat c)
        driver_state := { s.driver_state with
          cluster_map := setCell s.cluster_map c (UInt32.ofNat c')
          cluster_buf := 0 } }

/-- The two writes at the end of `write` and `delete`. -/
def store_tables (s : Fs) (parent_dir : FAT32DirectoryTable) (parent_cluster_number : UInt32) : Fs :=
  let disk := write_clusters s.disk (fatLayout.encode s.cluster_map) FAT_CLUSTER_NUMBER
  { s with disk := write_clusters disk (tableLayout.encode parent_dir) parent_cluster_number }

/-- The part of `write` for `buffer_size == 0`; `e` is the entry filled in so far. -/
def write_folder (newDir : FAT32DirectoryTable) (s : Fs) (request : FAT32DriverRequest)
    (parent_dir : FAT32DirectoryTable) (n : Fin 64) (e : FAT32DirectoryEntry) : ℤ × Fs :=
  let i := find_folder_cell s.driver_state 511 2
  if i = 512 then (1, s)
  else
    let cluster_map := setCell s.cluster_map i FAT32_FAT_END_OF_FILE
    let newDir := init_directory_table newDir request.name request.parent_cluster_number
    let disk := write_clusters s.disk (tableLayout.encode newDir) (UInt32.ofNat i)
    let e := { e with cluster_high := clusterHigh (UInt32.ofNat i), cluster_low := clusterLow (UInt32.ofNat i) }
    (0, store_tables { disk := disk, driver_state := { s.driver_state with cluster_map := cluster_map } }
      (Function.update parent_dir n e) request.parent_cluster_number)

/-- `n_cluster`, a `uint8_t`. -/
def n_cluster (buffer_size : UInt32) : ℕ :=
  (buffer_size.toNat / 2048 + if buffer_size.toNat % 2048 ≠ 0 then 1 else 0) % 256

/-- The part of `write` for `buffer_size != 0`; `e` is the entry filled in so far. -/
def write_file (s : Fs) (request : FAT32DriverRequest) (parent_dir : FAT32DirectoryTable) (n : Fin 64)
    (e : FAT32DirectoryEntry) : Except Trap (ℤ × Fs) :=
  let cluster_empty := find_file_cells s.cluster_map (n_cluster request.buffer_size) 510 2 []
  let s := { s with driver_state.cluster_buf := 0 }
  if cluster_empty.length < n_cluster request.buffer_size then .ok (1, s)
  else
    match store_clusters request.buf cluster_empty 0 request.buffer_size.toNat s with
    | .error t => .error t
    | .ok s =>
      let c := UInt32.ofNat (cluster_empty.headD 0)
      let e := { e with ext := request.ext, cluster_high := clusterHigh c, cluster_low := clusterLow c }
      .ok (0, store_tables s (Function.update parent_dir n e) request.parent_cluster_number)

/-- The fields of the new entry that are set before the folder and the file part. -/
def fill_entry (request : FAT32DriverRequest) (e : FAT32DirectoryEntry) : FAT32DirectoryEntry :=
  { e with
    name := request.name
    attr := if request.buffer_size = 0 then ATTR_SUBDIRECTORY else ATTR_ARCHIVE
    user_attribute := UATTR_NOT_EMPTY
    undelete := 0
    create_time := 0
    create_date := 0
    access_date := 0
    modified_time := 0
    modified_date := 0
    filesize := request.buffer_size }

def write (newDir : FAT32DirectoryTable) (s : Fs) (request : FAT32DriverRequest) :
    Except Trap (ℤ × Fs) :=
  if sameBytes request.name 0 then .ok (-1, s)
  else if request.parent_cluster_number.toNat < 2 then .ok (2, s)
  else
    let s := { s with driver_state.cluster_buf := read_clusters s.disk request.parent_cluster_number }
    let parent_dir := tableLayout.decode s.driver_state.cluster_buf
    if (List.finRange 64).tail.any fun i => sameBytes (parent_dir i).name request.name then .ok (1, s)
    else
      match Fin.find? fun n => (parent_dir n).user_attribute != UATTR_NOT_EMPTY with
      | none => .error .outOfBounds -- `n` is 64, and `parent_dir.table[n]` is written
      | some n =>
        let e := fill_entry request (parent_dir n)
        if request.buffer_size = 0 then .ok (write_folder newDir s request parent_dir n e)
        else write_file s request parent_dir n e

/-! ## Deleting -/

/-- The `do`-`while` loop of `delete` on a file's chain. -/
def free_chain : (fuel : ℕ) → (cluster_number : UInt32) → Fs → Except Trap Fs
  | 0, _, _ => .error .outOfFuel
  | fuel + 1, cluster_number, s =>
    let disk := write_clusters s.disk 0 cluster_number
    if cluster_number.toNat < 512 then
      let next := cell s.cluster_map cluster_number.toNat
      let s := { disk := disk
                 driver_state := { s.driver_state with
                   cluster_map := setCell s.cluster_map cluster_number.toNat FAT32_FAT_EMPTY_ENTRY } }
      if next ≠ FAT32_FAT_END_OF_FILE then free_chain fuel next s else .ok s
    else .error .outOfBounds

/-- The value of `j` after the emptiness scan of `delete`. -/
def scan_folder (curr_table : FAT32DirectoryTable) : ℕ :=
  ((Fin.find? fun j : Fin 64 =>
    1 ≤ j.val && (curr_table j).user_attribute != UATTR_NOT_EMPTY).map Fin.val).getD 64

def delete (fuel : ℕ) (s : Fs) (request : FAT32DriverRequest) : Except Trap (ℤ × Fs) :=
  if sameBytes request.name 0 then .ok (-1, s)
  else
    let parent_dir := tableLayout.decode (read_clusters s.disk request.parent_cluster_number)
    match (List.finRange 64).tail.find? fun i => keyMatches request (parent_dir i) with
    | none => .ok (-1, s)
    | some i =>
      let cluster_number := (parent_dir i).cluster
      let parent_dir' := Function.update parent_dir i 0
      if (parent_dir i).attr = ATTR_SUBDIRECTORY then
        if scan_folder (tableLayout.decode (read_clusters s.disk cluster_number)) > 1 then .ok (2, s)
        else if cluster_number.toNat < 512 then
          .ok (0, store_tables
            { disk := write_clusters s.disk 0 cluster_number
              driver_state := { s.driver_state with
                cluster_map := setCell s.cluster_map cluster_number.toNat FAT32_FAT_EMPTY_ENTRY } }
            parent_dir' request.parent_cluster_number)
        else .error .outOfBounds
      else
        match free_chain fuel cluster_number s with
        | .error t => .error t
        | .ok s => .ok (0, store_tables s parent_dir' request.parent_cluster_number)

/-! ## Calls -/

/-- A call of the driver. -/
inductive Call
  | write (request : FAT32DriverRequest)
  | delete (request : FAT32DriverRequest)
  | read (request : FAT32DriverRequest)
  | read_directory (request : FAT32DriverRequest)

/-- The request of a call. -/
def Call.request : Call → FAT32DriverRequest
  | write r | delete r | read r | read_directory r => r

/-- What a call gives back: its return code, and the buffer of its request. -/
structure Reply where
  code : ℤ
  buf : Buffer

/-- One call, with the uninitialised `newDir` zero. -/
def exec (fuel : ℕ) (s : Fs) : Call → Except Trap (Reply × Fs)
  | .write r =>
    match KeropOS.write 0 s r with
    | .error t => .error t
    | .ok (code, s') => .ok (⟨code, r.buf⟩, s')
  | .delete r =>
    match KeropOS.delete fuel s r with
    | .error t => .error t
    | .ok (code, s') => .ok (⟨code, r.buf⟩, s')
  | .read r =>
    match KeropOS.read s r with
    | .error t => .error t
    | .ok (code, buf) => .ok (⟨code, buf⟩, s)
  | .read_directory r => .ok (⟨(KeropOS.read_directory s r).1, (KeropOS.read_directory s r).2⟩, s)

end KeropOS
