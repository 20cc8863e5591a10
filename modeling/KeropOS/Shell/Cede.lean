import KeropOS.Shell.Emvi

/-!
# The command `cd`

`cede` of `user-shell.c`, which keeps the current directory and those above it in a `DirStack`. Its
system call 1 fills `req_table`, which system call 10 then overwrites, and what it returns is not looked at.

* `DirStack.up`, `DirStack.rename`, `DirStack.push`: what `cede` does to the stack;
* `find_folder`: the loop over the table of the current directory;
* `cede`; `shellStack`: the stack `main` starts with.

A store to `dir_name_stack` or `dir_stack` at index 16 ends the command with `Trap.outOfBounds`.
-/

namespace KeropOS

open Packed

/-- `".."`. -/
def dot_dot : List UInt8 := [46, 46, 0]

namespace DirStack

/-- `*dir_stack_index -= parseId`, but not below 1. -/
def up (st : DirStack) (parseId : ℕ) : DirStack where
  dir_stack := st.dir_stack
  dir_name_stack := st.dir_name_stack
  dir_stack_index := if st.dir_stack_index ≤ parseId then 1 else st.dir_stack_index - parseId
  pos := by split_ifs <;> omega
  le := by
    have := st.le
    split_ifs <;> omega

/-- The store to `dir_name_stack[*dir_stack_index]`. -/
def rename (st : DirStack) (h : st.dir_stack_index < 16) (name : Bytes 8) : DirStack :=
  { st with dir_name_stack := Function.update st.dir_name_stack ⟨st.dir_stack_index, h⟩ name }

/-- The store to `dir_stack[*dir_stack_index]`, and the index after it. -/
def push (st : DirStack) (h : st.dir_stack_index < 16) (cluster : UInt32) : DirStack where
  dir_stack := Function.update st.dir_stack ⟨st.dir_stack_index, h⟩ cluster
  dir_name_stack := st.dir_name_stack
  dir_stack_index := st.dir_stack_index + 1
  pos := Nat.succ_pos _
  le := h

end DirStack

/-- The `do`-`while` loop over `"../"`; `parseId` is a `uint8_t`. -/
def go_up (fuel : ℕ) (dirname : Buffer) (st : DirStack) : Except Trap (Buffer × DirStack) :=
  if strcmp dot_dot_slash dirname = some 0 then
    match climb fuel 0 dirname with
    | .error t => .error t
    | .ok (parseId, dirname) => .ok (dirname, st.up (parseId % 256))
  else .ok (dirname, st)

/-- The first eight characters at `dirname`. -/
def dir_name (dirname : Buffer) : Bytes 8 := fun i => dirname i

/-- The memory from `request.name` on: behind it lies `request.ext`, which is zero, and `strcmp` gets no
further than its first byte. -/
def request_name (name : Bytes 8) : Buffer := fun a => if h : a < 8 then name ⟨a, h⟩ else 0

/-- The loop over the slots still to look at. -/
def find_folder (req_table : FAT32DirectoryTable) (name : Bytes 8) :
    List (Fin 64) → Except Trap (Option (Fin 64))
  | [] => .ok none
  | i :: slots =>
    match strcmp (table_bytes req_table i) (request_name name) with
    | none => .error .outOfBounds
    | some c =>
      if c = 0 ∧ (req_table i).attr = ATTR_SUBDIRECTORY ∧ (req_table i).filesize = 0 then .ok (some i)
      else find_folder req_table name slots

/-- The part of `cede` from the copy of the name on. -/
def enter (s : Fs) (name : Bytes 8) (st : DirStack) : Except Trap (Option String × DirStack) :=
  let req_table := tableLayout.decode (read_clusters s.disk (st.cluster 0))
  if h : st.dir_stack_index < 16 then
    match find_folder req_table name (List.finRange 64).tail with
    | .error t => .error t
    | .ok (some i) => .ok (none, (st.rename h name).push h (req_table i).cluster)
    | .ok none =>
      .ok (if strcmp dot_dot (request_name name) ≠ some 0 ∧ request_name name 0 ≠ 0 then
        puts "[ERROR] FOLDER NOT FOUND\n" 25 else none, st.rename h name)
  else .error .outOfBounds

/-- `cede`: the text it shows, if any, and the stack after it. -/
def cede (fuel : ℕ) (s : Fs) (dirname : Buffer) (st : DirStack) : Except Trap (Option String × DirStack) :=
  match go_up fuel dirname st with
  | .error t => .error t
  | .ok (dirname, st) =>
    if strcmp dot_dot dirname = some 0 then
      if st.dir_stack_index ≤ 1 then .ok (none, st) else enter s (dir_name dirname) (st.up 1)
    else if strcmp [dirname 0, dirname 1] (cstring dot) = some 0 then .ok (none, st)
    else enter s (dir_name dirname) st

theorem one_le_max_dir_stack_size : 1 ≤ 16 := by decide

/-- The stack in `main`; the clusters above the first are not initialised. -/
def shellStack (uninitialised : Fin 16 → UInt32) : DirStack where
  dir_stack k := if k.val = 0 then ROOT_CLUSTER_NUMBER else uninitialised k
  dir_name_stack k := if k.val = 0 then root_name else fun _ => 0
  dir_stack_index := 1
  pos := Nat.one_pos
  le := one_le_max_dir_stack_size

end KeropOS
