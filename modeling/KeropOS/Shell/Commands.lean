import KeropOS.Shell.Cede

/-!
# The commands on files

`mkdir_command`, `ket`, `erem`, `cepe` and `nano` of `user-shell.c`, the commands `mkdir`, `cat`, `rm`, `cp`
and `nano`. They reach the disk by the system calls 0, 1, 2, 10 and 12: `read`, `read_directory`, `write`,
`read_clusters`, `delete`. A string is the memory from its first character on.

* `erem_key`, `cepe_key`, `cepe_dest_key`, `nano_key`: each command's own copy of `file_key`;
* `stores_at`: the call of `read` stores a byte at an index of its buffer;
* `mkdir_command`, `erem`, `nano`, `ket`, `cepe`.

A store behind the end of `fileBuff`, `buffer` or `buff` ends the command with `Trap.outOfBounds`. The local
variables that a command leaves uninitialised are arguments.
-/

namespace KeropOS

open Packed

/-! ## Names -/

/-- In `erem`. -/
def erem_key (filename : Buffer) : Option (Bytes 8 × Bytes 3) := short_file_key filename

/-- In `cepe`, for the source. -/
def cepe_key (filename : Buffer) : Option (Bytes 8 × Bytes 3) := short_file_key filename

/-- In `cepe`, for the destination. -/
def cepe_dest_key (dest : Buffer) : Option (Bytes 8 × Bytes 3) := short_file_key dest

/-- In `nano`, where the test is commented out. -/
def nano_key (filename : Buffer) : Bytes 8 × Bytes 3 := file_key filename

/-- `realFileName`, nine bytes of which the last is zero; `strcmp` gets no further. -/
def realFileName (filename : Buffer) : Buffer := request_name (dest_name filename)

/-! ## Calls -/

/-- The byte at index `a` of the buffer after `read` does not depend on what it was before: `read` stores
one there. -/
def stores_at (s : Fs) (request : FAT32DriverRequest) (a : ℕ) : Bool :=
  match read s { request with buf := Function.update request.buf a 0 },
    read s { request with buf := Function.update request.buf a 1 } with
  | .ok (_, buf), .ok (_, buf') => buf a == buf' a
  | _, _ => false

/-- `read` into an object of `size` bytes. What `read` stores are whole clusters from index 0 on: it stores
a byte behind the object if it stores one at index `size`. -/
def read_into (size : ℕ) (s : Fs) (request : FAT32DriverRequest) : Except Trap (ℤ × Buffer) :=
  if stores_at s request size then .error .outOfBounds else read s request

/-! ## mkdir, rm -/

/-- The name in the request of `mkdir_command`. -/
def mkdir_name (dirname : Buffer) : Bytes 8 := fun i => dirname i

def mkdir_command (newDir : FAT32DirectoryTable) (s : Fs) (dirname : Buffer)
    (parent_cluster_number : UInt32) :
    Except Trap (Option String × Fs) :=
  match write newDir s
    { buf := fun _ => 0
      name := mkdir_name dirname
      ext := 0
      parent_cluster_number := parent_cluster_number
      buffer_size := 0 } with
  | .error t => .error t
  | .ok (retcode, s) => .ok (if retcode ≠ 0 then puts "[ERROR] FAILED TO MAKE DIR\n" 27 else none, s)

def erem (fuel : ℕ) (s : Fs) (filename : Buffer) (st : DirStack) : Except Trap (Option String × Fs) :=
  match destination fuel filename with
  | .error t => .error t
  | .ok (parseId, filename) =>
    if 0 < parseId ∧ st.dir_stack_index ≤ parseId then .ok (puts "INVALID FILE PATH\n" 18, s)
    else
      match erem_key filename with
      | none => .ok (puts "INVALID FILE NAME\n" 18, s)
      | some (name, ext) =>
        match delete fuel s
          { buf := fun _ => 0
            name := name
            ext := ext
            parent_cluster_number := st.cluster parseId
            buffer_size := 0 } with
        | .error t => .error t
        | .ok (retcode, s) => .ok (if retcode ≠ 0 then puts "FAILED TO DELETE FOLDER\n" 24 else none, s)

/-! ## The line editor -/

/-- The loop over the keys, up to a newline, in `nano` and in `exec_command`; a key 0 is none. A backspace
takes a character back and leaves `blank` in its place. `size` is that of `buff`. -/
def edit_line (blank : UInt8) (size : ℕ) : (keys : List UInt8) → (i : ℕ) → (buff : Buffer) →
    Except Trap (ℕ × Buffer)
  | [], _, _ => .error .outOfFuel
  | input :: keys, i, buff =>
    if input = 10 then .ok (i, buff)
    else if input = 0 then edit_line blank size keys i buff
    else if input = 8 then
      if i = 0 then edit_line blank size keys i buff
      else edit_line blank size keys (i - 1) (Function.update buff (i - 1) blank)
    else if i < size then edit_line blank size keys (i + 1) (Function.update buff i input)
    else .error .outOfBounds

/-- `nano`; `keys` are those pressed. -/
def nano (fuel : ℕ) (newDir : FAT32DirectoryTable) (buff : Buffer) (s : Fs) (filename : Buffer)
    (st : DirStack) (keys : List UInt8) : Except Trap (Option String × Fs) :=
  match destination fuel filename with
  | .error t => .error t
  | .ok (parseId, filename) =>
    if 0 < parseId ∧ st.dir_stack_index ≤ parseId then .ok (puts "INVALID FILE PATH\n" 18, s)
    else
      match edit_line 0 2048 keys 0 buff with
      | .error t => .error t
      | .ok (j, buff) =>
        match write newDir s
          { buf := buff
            name := (nano_key filename).1
            ext := (nano_key filename).2
            parent_cluster_number := st.cluster parseId
            buffer_size := UInt32.ofNat j } with
        | .error t => .error t
        | .ok (retcode, s) => .ok (if retcode ≠ 0 then puts "FAILED TO WRITE FOLDER\n" 23 else none, s)

/-! ## cat -/

/-- `"txt"`. -/
def txt : List UInt8 := [116, 120, 116, 0]

/-- The memory of a table from the extension of entry `i` on. -/
def ext_bytes (table : FAT32DirectoryTable) (i : Fin 64) : Buffer :=
  fun a => (table_bytes table i).getD (8 + a) 0

/-- The loop over the table: the first entry that passes for the file. -/
def find_text (parent_dir : FAT32DirectoryTable) (name : Buffer) :
    List (Fin 64) → Except Trap (Option (Fin 64))
  | [] => .ok none
  | i :: slots =>
    match strcmp (table_bytes parent_dir i) name with
    | none => .error .outOfBounds
    | some c =>
      if c = 0 ∧ strcmp txt (ext_bytes parent_dir i) = some 0 then .ok (some i)
      else find_text parent_dir name slots

/-- What `ket` prints: the characters of the file one by one, and a text. -/
structure Printed where
  chars : List UInt8
  text : Option String

/-- `ket` behind the loop over the table, with the entry found. -/
def print_file (fileBuff : Buffer) (s : Fs) (name : Bytes 8) (parent_cluster_number filesize : UInt32) :
    Except Trap Printed :=
  match read_into 2048 s
    { buf := fileBuff
      name := name
      ext := ![116, 120, 116]
      parent_cluster_number := parent_cluster_number
      buffer_size := filesize } with
  | .error t => .error t
  | .ok (retcode, fileBuff) =>
    if retcode = 0 then .ok ⟨(List.range filesize.toNat).map fileBuff, puts "\n" 1⟩
    else .ok ⟨[], puts "FAILED TO READ\n" 15⟩

/-- `ket`; `fileBuff` is one cluster. -/
def ket (fuel : ℕ) (fileBuff : Buffer) (s : Fs) (filename : Buffer) (st : DirStack) : Except Trap Printed :=
  match destination fuel filename with
  | .error t => .error t
  | .ok (parseId, filename) =>
    if 0 < parseId ∧ st.dir_stack_index ≤ parseId then .ok ⟨[], puts "INVALID FILE PATH\n" 18⟩
    else if (read_directory s (directory_request st parseId)).1 ≠ 0 then
      .ok ⟨[], puts "FAILED TO READ FOLDER\n" 22⟩
    else if name_length filename 10 0 > 8 then .ok ⟨[], puts "INVALID FILE NAME\n" 18⟩
    else if strcmp txt (shift filename (name_length filename 10 0 + 1)) ≠ some 0 then
      .ok ⟨[], puts "INVALID FILE EXTENSION\n" 23⟩
    else
      let parent_dir := tableLayout.decode (read_clusters s.disk (st.cluster parseId))
      match find_text parent_dir (realFileName filename) (List.finRange 64) with
      | .error t => .error t
      | .ok none => .ok ⟨[], puts "FILE NOT FOUND\n" 15⟩
      | .ok (some i) =>
        print_file fileBuff s (dest_name filename) (st.cluster parseId) (parent_dir i).filesize

/-! ## cp -/

/-- The loop over the table: `filesize` of the last entry that passes for the source. -/
def find_filesize (curr_dir : FAT32DirectoryTable) (name : Buffer) :
    List (Fin 64) → (filesize : UInt32) → Except Trap UInt32
  | [], filesize => .ok filesize
  | i :: slots, filesize =>
    match strcmp (table_bytes curr_dir i) name with
    | none => .error .outOfBounds
    | some c => find_filesize curr_dir name slots (if c = 0 then (curr_dir i).filesize else filesize)

/-- The second half of `cepe`, after the source was read to `buffer`. -/
def put_copy (fuel : ℕ) (newDir : FAT32DirectoryTable) (s : Fs) (buffer : Buffer) (filesize : UInt32)
    (dest : Buffer) (parent_cluster_number : UInt32) : Except Trap (Option String × Fs) :=
  match cepe_dest_key dest with
  | none => .ok (puts "INVALID FILE NAME\n" 18, s)
  | some (name, ext) =>
    let request2 : FAT32DriverRequest :=
      { buf := fun _ => 0
        name := name
        ext := ext
        parent_cluster_number := parent_cluster_number
        buffer_size := 0 }
    match delete fuel s request2 with
    | .error t => .error t
    | .ok (retcode, s) =>
      if retcode ≠ 0 then .ok (puts "FAILED TO DELETE FOLDER\n" 24, s)
      else
        match write newDir s { request2 with buf := buffer, buffer_size := filesize } with
        | .error t => .error t
        | .ok (retcode, s) => .ok (if retcode ≠ 0 then puts "FAILED TO WRITE FOLDER\n" 23 else none, s)

/-- The uninitialised local variables of `cepe`, and `newDir` of `write`. -/
structure CepeLocals where
  filesize : UInt32
  buffer : Buffer
  newDir : FAT32DirectoryTable

/-- `cepe` behind the loop over the table. -/
def copy_file (fuel : ℕ) (v : CepeLocals) (s : Fs) (key : Bytes 8 × Bytes 3) (filesize : UInt32)
    (dest : Buffer) (st : DirStack) (parseId : ℕ) : Except Trap (Option String × Fs) :=
  match read_into filesize.toNat s
    { buf := v.buffer
      name := key.1
      ext := key.2
      parent_cluster_number := st.cluster 0
      buffer_size := filesize } with
  | .error t => .error t
  | .ok (retcode, buffer) =>
    if retcode ≠ 0 then .ok (puts "FAILED TO READ SRCFILE\n" 23, s)
    else put_copy fuel v.newDir s buffer filesize dest (st.cluster parseId)

def cepe (fuel : ℕ) (v : CepeLocals) (s : Fs) (filename dest : Buffer) (st : DirStack) :
    Except Trap (Option String × Fs) :=
  match destination fuel dest with
  | .error t => .error t
  | .ok (parseId, dest) =>
    if 0 < parseId ∧ st.dir_stack_index ≤ parseId then .ok (puts "INVALID DESTINATION PATH\n" 18, s)
    else if (read_directory s (directory_request st 0)).1 ≠ 0 then
      .ok (puts "FAILED TO READ DSTFOLDER\n" 25, s)
    else
      match cepe_key (here filename) with
      | none => .ok (puts "INVALID FILE NAME\n" 18, s)
      | some key =>
        match find_filesize (tableLayout.decode (read_clusters s.disk (st.cluster 0)))
          (realFileName (here filename)) (List.finRange 64) v.filesize with
        | .error t => .error t
        | .ok filesize => copy_file fuel v s key filesize dest st parseId

end KeropOS
