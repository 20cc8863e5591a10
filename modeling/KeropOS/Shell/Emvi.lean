import KeropOS.Fat.Driver

/-!
# The command `mv`

`strcmp` of `stdlib/string.c`, and `emvi` of `user-shell.c`, which runs in user mode and reaches the
disk by the system calls 1, 10 and 11: `read_directory`, `read_clusters`, `write_clusters`. A string
is the memory from its first character on.

* `strcmp`; `DirStack`: the current directory and those above it;
* `destination`: the `"../"` at the front of the second argument;
* `take_sources`: the loop over the source table; `file_key`: a file name cut into name and extension;
* `emvi`.

The local variables that `emvi` leaves uninitialised are an argument.
-/

namespace KeropOS

open Packed

/-! ## Strings -/

/-- The memory from index `k` on. -/
def shift (m : Buffer) (k : ℕ) : Buffer := fun a => m (k + a)

/-- The string with these characters, and zeros behind it. -/
def cstring (text : List UInt8) : Buffer := fun a => text.getD a 0

/-- `strcmp`; `s1` is the memory from the first string on, to the end of the object it lies in. -/
def strcmp : (s1 : List UInt8) → (s2 : Buffer) → Option ℤ
  | [], _ => none
  | [a], s2 => if a ≠ s2 0 then some (a.toInt8.toInt - (s2 0).toInt8.toInt) else none
  | a :: b :: s1, s2 =>
    if a ≠ s2 0 then some (a.toInt8.toInt - (s2 0).toInt8.toInt)
    else if b = 0 then some 0
    else strcmp (b :: s1) (shift s2 1)

/-- `"."`, `"./"` and `"../"`. -/
def dot : List UInt8 := [46, 0]
def dot_slash : List UInt8 := [46, 47, 0]
def dot_dot_slash : List UInt8 := [46, 46, 47, 0]

/-! ## Arguments -/

/-- `dir_stack`, `dir_name_stack` and `*dir_stack_index`. -/
structure DirStack where
  dir_stack : Fin 16 → UInt32
  dir_name_stack : Fin 16 → Bytes 8
  dir_stack_index : ℕ
  pos : 0 < dir_stack_index
  le : dir_stack_index ≤ 16

namespace DirStack

/-- `*dir_stack_index - (parseId + 1)`. -/
def slot (st : DirStack) (parseId : ℕ) : Fin 16 :=
  ⟨st.dir_stack_index - (parseId + 1), by have := st.pos; have := st.le; omega⟩

def cluster (st : DirStack) (parseId : ℕ) : UInt32 := st.dir_stack (st.slot parseId)

def name (st : DirStack) (parseId : ℕ) : Bytes 8 := st.dir_name_stack (st.slot parseId)

end DirStack

/-- A path without the `"./"` at its front. -/
def here (path : Buffer) : Buffer := if strcmp dot_slash path = some 0 then shift path 2 else path

/-- The `do`-`while` loop over `"../"`. -/
def climb : (fuel parseId : ℕ) → (dest : Buffer) → Except Trap (ℕ × Buffer)
  | 0, _, _ => .error .outOfFuel
  | fuel + 1, parseId, dest =>
    if strcmp dot_dot_slash (shift dest 3) = some 0 then climb fuel (parseId + 1) (shift dest 3)
    else .ok (parseId + 1, shift dest 3)

/-- How many directories `dest` goes up, and the name it ends in. -/
def destination (fuel : ℕ) (dest : Buffer) : Except Trap (ℕ × Buffer) :=
  if strcmp dot_dot_slash (here dest) = some 0 then climb fuel 0 (here dest) else .ok (0, here dest)

/-! ## Entries -/

/-- The local variables of `emvi` that hold an entry on its way. -/
structure Saved where
  attr : UInt8
  user_attribute : UInt8
  cluster_high : UInt16
  cluster_low : UInt16
  filesize : UInt32

namespace FAT32DirectoryEntry

def saved (e : FAT32DirectoryEntry) : Saved :=
  ⟨e.attr, e.user_attribute, e.cluster_high, e.cluster_low, e.filesize⟩

/-- The entry as `emvi` leaves it behind. -/
def cleared (e : FAT32DirectoryEntry) : FAT32DirectoryEntry :=
  { e with
    name := 0
    ext := 0
    attr := 0
    user_attribute := 0
    cluster_high := 0
    cluster_low := 0
    filesize := 0 }

/-- The entry as `emvi` fills it in. -/
def filled (e : FAT32DirectoryEntry) (v : Saved) (name : Bytes 8) (ext : Bytes 3) : FAT32DirectoryEntry :=
  { e with
    name := name
    ext := ext
    attr := v.attr
    user_attribute := v.user_attribute
    cluster_high := v.cluster_high
    cluster_low := v.cluster_low
    filesize := v.filesize }

end FAT32DirectoryEntry

/-- The memory of a table from the name of entry `i` on. -/
def table_bytes (table : FAT32DirectoryTable) (i : Fin 64) : List UInt8 :=
  (List.ofFn (tableLayout.encode table)).drop (32 * i)

/-- The loop over the source table: every entry whose name `filename` starts with is saved and
cleared, and the table is written each time. -/
def take_sources (filename : Buffer) (cluster : UInt32) :
    List (Fin 64) → FAT32DirectoryTable → Saved → Disk → Except Trap (Saved × Disk)
  | [], _, v, disk => .ok (v, disk)
  | i :: slots, curr_dir, v, disk =>
    match strcmp (table_bytes curr_dir i) filename with
    | none => .error .outOfBounds
    | some c =>
      if c = 0 then
        let curr_dir' := Function.update curr_dir i (curr_dir i).cleared
        take_sources filename cluster slots curr_dir' (curr_dir i).saved
          (write_clusters disk (tableLayout.encode curr_dir') cluster)
      else take_sources filename cluster slots curr_dir v disk

/-- The loop that copies `dest` to `destName` up to a dot; the value of `j` after it. -/
def name_length (dest : Buffer) : (fuel j : ℕ) → ℕ
  | 0, j => j
  | fuel + 1, j => if strcmp dot (shift dest j) ≠ some 0 ∧ j < 9 then name_length dest fuel (j + 1) else j

def dest_name (dest : Buffer) : Bytes 8 := fun i => if i < name_length dest 10 0 then dest i else 0

def dest_ext (dest : Buffer) : Bytes 3 := fun i => dest (name_length dest 10 0 + i + 1)

/-- The name and the extension that a file name is cut into: the copy up to a dot, and the three bytes
behind the dot. -/
def file_key (filename : Buffer) : Bytes 8 × Bytes 3 := (dest_name filename, dest_ext filename)

/-- The same with the test that the name is of eight bytes at most. -/
def short_file_key (filename : Buffer) : Option (Bytes 8 × Bytes 3) :=
  if name_length filename 10 0 > 8 then none else some (file_key filename)

/-- In `emvi`, for the destination. -/
def emvi_dest_key (dest : Buffer) : Option (Bytes 8 × Bytes 3) := short_file_key dest

/-! ## The command -/

/-- The request that asks `read_directory` whether a directory can be read. What it stores in the
buffer is overwritten by `read_clusters`. -/
def directory_request (st : DirStack) (parseId : ℕ) : FAT32DriverRequest where
  buf _ := 0
  name := st.name parseId
  ext := 0
  parent_cluster_number := st.cluster parseId
  buffer_size := 0

/-- What `puts` shows of a text. -/
def puts (text : String) (count : ℕ) : Option String := some (String.ofList (text.toList.take count))

/-- The second half of `emvi`, after the loop over the source table. -/
def put_destination (v : Saved) (s : Fs) (dest : Buffer) (st : DirStack) (parseId : ℕ) : Option String × Fs :=
  if (read_directory s (directory_request st parseId)).1 ≠ 0 then (puts "FAILED TO READ DSTFOLDER\n" 25, s)
  else
    let parent_dir := tableLayout.decode (read_clusters s.disk (st.cluster parseId))
    match Fin.find? fun n => (parent_dir n).user_attribute != UATTR_NOT_EMPTY with
    | none => (none, s)
    | some n =>
      match emvi_dest_key dest with
      | none => (puts "INVALID SOURCE FILE NAME\n" 25, s)
      | some (name, ext) =>
        let parent_dir := Function.update parent_dir n ((parent_dir n).filled v name ext)
        (none, { s with disk := write_clusters s.disk (tableLayout.encode parent_dir) (st.cluster parseId) })

/-- `emvi`: the text it shows, if any, and the state after it. -/
def emvi (fuel : ℕ) (uninitialised : Saved) (s : Fs) (filename dest : Buffer) (st : DirStack) :
    Except Trap (Option String × Fs) :=
  match destination fuel dest with
  | .error t => .error t
  | .ok (parseId, dest) =>
    if 0 < parseId ∧ st.dir_stack_index ≤ parseId then .ok (puts "INVALID DESTINATION PATH\n" 18, s)
    else if (read_directory s (directory_request st 0)).1 ≠ 0 then
      .ok (puts "FAILED TO READ SRCFOLDER\n" 25, s)
    else
      match take_sources (here filename) (st.cluster 0) (List.finRange 64)
        (tableLayout.decode (read_clusters s.disk (st.cluster 0))) uninitialised s.disk with
      | .error t => .error t
      | .ok (v, disk) => .ok (put_destination v { s with disk := disk } dest st parseId)

end KeropOS
