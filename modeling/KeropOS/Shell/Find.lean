import KeropOS.Lib.Ring
import KeropOS.Shell.Keys

/-!
# The command `find`

`bfs_find` of `user-shell.c`, a breadth-first walk with a queue of 20 directories. It reaches the disk by the
system calls 1 and 10, `read_directory` and `read_clusters`. A string in an array is kept as its characters.

* `custom_strcpy`, `custom_strcat`: into an array of `size` bytes;
* `FileInfo`, `Queue`: a directory that waits, with the clusters from the root down to it;
* `enqueue_folder`: a subfolder goes into the queue; `report`: an entry found;
* `bfs_find`.

A store or a read behind the end of an array ends the command with `Trap.outOfBounds`.
-/

namespace KeropOS

open Packed Rings

@[simp] theorem ok_bind {α β : Type} (a : α) (f : α → Except Trap β) : (Except.ok a >>= f) = f a := rfl

theorem bind_ok {α β : Type} {x : Except Trap α} {f : α → Except Trap β} {b : β} (h : (x >>= f) = .ok b) :
    ∃ a, x = .ok a ∧ f a = .ok b := by
  cases x with
  | error t => exact absurd h (by simp [bind, Except.bind])
  | ok a => exact ⟨a, rfl, h⟩

/-! ## Strings -/

/-- The characters of the string at the front of an object; a read behind its end when it has no zero. -/
def string_at (mem : List UInt8) : Except Trap (List UInt8) :=
  if 0 ∈ mem then .ok (mem.takeWhile (· ≠ 0)) else .error .outOfBounds

def custom_strcpy (size : ℕ) (src : List UInt8) : Except Trap (List UInt8) :=
  if src.length < size then .ok src else .error .outOfBounds

def custom_strcat (size : ℕ) (dest src : List UInt8) : Except Trap (List UInt8) :=
  if (dest ++ src).length < size then .ok (dest ++ src) else .error .outOfBounds

/-! ## The queue -/

structure FileInfo where
  filename : List UInt8
  cluster_number : UInt32
  parent_cluster_number : UInt32
  clusterpathing : Fin 16 → UInt32
  neff : ℕ

/-- `createQueue`, `enqueue`, `dequeue` and `isEmpty` are those of a ring; an element is copied field by
field. -/
abbrev Queue := Ring FileInfo 20

/-! ## What `find` shows -/

def WHITE : UInt8 := 0x0F
def LIGHT_PURPLE : UInt8 := 0x0D
def RED : UInt8 := 0x0C

/-- One call of `puts`. -/
inductive Shown
  | chars (text : List UInt8) (colour : UInt8)
  | message (text : Option String) (colour : UInt8)
  deriving DecidableEq

/-- The local variables of `bfs_find` that it does not initialise. `behind_ext p i` is the memory behind `ext`
when entry `i` of the directory at `p` is shown. -/
structure FindLocals where
  items : Fin 20 → FileInfo
  clusterpathing : Fin 16 → UInt32
  path : Bytes 160
  behind_ext : UInt32 → Fin 64 → List UInt8

/-- The variables that live over the loop, and what is shown so far. -/
structure FindState where
  queue : Queue
  path : Bytes 160
  n_found : Int8
  shown : List Shown

/-! ## One entry -/

/-- The directory table at a cluster. -/
def table_of (s : Fs) (cluster : UInt32) : FAT32DirectoryTable :=
  tableLayout.decode (read_clusters s.disk cluster)

/-- `sub_dir_info` for entry `i`. -/
def sub_dir_info (current_info : FileInfo) (dir_table : FAT32DirectoryTable) (i : Fin 64) :
    Except Trap FileInfo := do
  let name ← string_at (table_bytes dir_table i)
  let filename ← custom_strcpy 9 name
  if h : current_info.neff + 1 < 16 then
    .ok
      { filename := filename
        cluster_number := (dir_table i).cluster
        parent_cluster_number := current_info.cluster_number
        clusterpathing := Function.update current_info.clusterpathing
          ⟨current_info.neff + 1, h⟩ (dir_table i).cluster
        neff := current_info.neff + 1 }
  else .error .outOfBounds

/-- A subdirectory goes into the queue. -/
def enqueue_folder (current_info : FileInfo) (dir_table : FAT32DirectoryTable) (i : Fin 64) (st : FindState) :
    Except Trap FindState :=
  if (dir_table i).attr = ATTR_SUBDIRECTORY then do
    let info ← sub_dir_info current_info dir_table i
    .ok { st with queue := st.queue.enqueue info }
  else .ok st

/-- The `while` loop over `get_i`: the names that the directories on the way have in their own tables. -/
def path_names (s : Fs) (clusterpathing : Fin 16 → UInt32) : (get_is : List ℕ) → (path : List UInt8) →
    Except Trap (List UInt8)
  | [], path => .ok path
  | get_i :: get_is, path =>
    if h : get_i < 16 then do
      let name ← string_at (table_bytes (table_of s (clusterpathing ⟨get_i, h⟩)) 0)
      let path ← custom_strcat 160 path name
      let path ← custom_strcat 160 path [47]
      path_names s clusterpathing get_is path
    else .error .outOfBounds

/-- The extension behind the path of a file, and the colour. -/
def path_end (v : FindLocals) (current_info : FileInfo) (dir_table : FAT32DirectoryTable) (i : Fin 64)
    (path : List UInt8) : Except Trap Shown :=
  if (dir_table i).filesize ≠ 0 then do
    let ext ← string_at (46 :: List.ofFn (dir_table i).ext ++ v.behind_ext current_info.cluster_number i)
    let path ← custom_strcat 160 path ext
    .ok (.chars path WHITE)
  else .ok (.chars path LIGHT_PURPLE)

/-- An entry that was found; `path` is zeroed behind it. -/
def report (v : FindLocals) (s : Fs) (target_name : List UInt8) (current_info : FileInfo)
    (dir_table : FAT32DirectoryTable) (i : Fin 64) (st : FindState) : Except Trap FindState := do
  let path ← string_at (List.ofFn st.path)
  let path ← path_names s current_info.clusterpathing (List.range (current_info.neff + 1)) path
  let path ← custom_strcat 160 path target_name
  let line ← path_end v current_info dir_table i path
  .ok { st with path := 0, n_found := st.n_found + 1, shown := st.shown ++ [line, .chars [10] WHITE] }

/-- An entry in use. -/
def find_entry (v : FindLocals) (s : Fs) (target_name : List UInt8) (current_info : FileInfo)
    (dir_table : FAT32DirectoryTable) (i : Fin 64) (st : FindState) : Except Trap FindState := do
  let st ← enqueue_folder current_info dir_table i st
  match strcmp (table_bytes dir_table i) (cstring target_name) with
  | none => .error .outOfBounds
  | some c => if c = 0 then report v s target_name current_info dir_table i st else .ok st

/-! ## The loops -/

/-- The loop over the table. -/
def find_entries (v : FindLocals) (s : Fs) (target_name : List UInt8) (current_info : FileInfo)
    (dir_table : FAT32DirectoryTable) : List (Fin 64) → FindState → Except Trap FindState
  | [], st => .ok st
  | i :: slots, st =>
    if (dir_table i).user_attribute = UATTR_NOT_EMPTY then do
      let st ← find_entry v s target_name current_info dir_table i st
      find_entries v s target_name current_info dir_table slots st
    else find_entries v s target_name current_info dir_table slots st

/-- The slots from 2 on in the first directory, and from 1 on in the others. -/
def find_slots (isFirst : Bool) : List (Fin 64) := (List.finRange 64).drop (if isFirst then 2 else 1)

/-- The request for the current directory; the zero behind a name of eight characters goes to `ext`. -/
def find_request (current_info : FileInfo) : FAT32DriverRequest where
  buf := 0
  name := padded current_info.filename
  ext := 0
  parent_cluster_number := current_info.parent_cluster_number
  buffer_size := 0

/-- The loop over the queue. -/
def find_loop (v : FindLocals) (s : Fs) (target_name : List UInt8) : (fuel : ℕ) → (isFirst : Bool) →
    FindState → Except Trap FindState
  | 0, _, _ => .error .outOfFuel
  | fuel + 1, isFirst, st =>
    match st.queue.dequeue with
    | none => .ok st
    | some (current_info, queue) =>
      if (read_directory s (find_request current_info)).1 = 0 then do
        let st ← find_entries v s target_name current_info (table_of s current_info.cluster_number)
          (find_slots isFirst) { st with queue := queue }
        find_loop v s target_name fuel false st
      else
        find_loop v s target_name fuel isFirst { st with
          queue := queue
          shown := st.shown ++ [.message (puts "Error reading directory.\n" 26) RED] }

/-- `"ROOT"`. -/
def root_text : List UInt8 := [82, 79, 79, 84]

def root_info (v : FindLocals) (filename : List UInt8) : FileInfo where
  filename := filename
  cluster_number := ROOT_CLUSTER_NUMBER
  parent_cluster_number := ROOT_CLUSTER_NUMBER
  clusterpathing := Function.update v.clusterpathing ⟨0, by decide⟩ ROOT_CLUSTER_NUMBER
  neff := 0

/-- `bfs_find`; what it shows. -/
def bfs_find (fuel : ℕ) (v : FindLocals) (s : Fs) (target_name : List UInt8) : Except Trap (List Shown) := do
  let filename ← custom_strcpy 9 root_text
  let queue := (Ring.create v.items).enqueue (root_info v filename)
  let st ← find_loop v s target_name fuel true { queue := queue, path := v.path, n_found := 0, shown := [] }
  if st.n_found = 0 then
    .ok (st.shown ++ [.message (puts "Tidak ada file/folder yang ditemukan \n" 39) RED])
  else .ok st.shown

/-! ## Runs -/

section

variable {fuel fuel' : ℕ} {v : FindLocals} {s : Fs} {target_name : List UInt8}

/-- More fuel changes nothing. -/
theorem find_loop_mono (hle : fuel ≤ fuel') {isFirst : Bool} {st st' : FindState}
    (h : find_loop v s target_name fuel isFirst st = .ok st') :
    find_loop v s target_name fuel' isFirst st = .ok st' := by
  induction fuel generalizing fuel' isFirst st with
  | zero => exact absurd h (by simp [find_loop])
  | succ fuel ih =>
    obtain ⟨fuel', rfl⟩ : ∃ f, fuel' = f + 1 := ⟨fuel' - 1, by omega⟩
    have hle := Nat.le_of_succ_le_succ hle
    rw [find_loop] at h ⊢
    split at h
    · exact h
    · split_ifs at h ⊢ with hread
      · obtain ⟨st₁, hentries, hrest⟩ := bind_ok h
        rw [hentries, ok_bind]
        exact ih hle hrest
      · exact ih hle h

/-- What `find` shows does not depend on the fuel. -/
theorem bfs_find_unique {shown shown' : List Shown} (h : bfs_find fuel v s target_name = .ok shown)
    (h' : bfs_find fuel' v s target_name = .ok shown') : shown = shown' := by
  have hmono : ∀ {f f' l}, f ≤ f' → bfs_find f v s target_name = .ok l →
    bfs_find f' v s target_name = .ok l := by
    intro f f' l hle hf
    rw [bfs_find] at hf ⊢
    obtain ⟨filename, hname, hf⟩ := bind_ok hf
    obtain ⟨st, hloop, hf⟩ := bind_ok hf
    rw [hname, ok_bind]
    dsimp only
    rw [find_loop_mono hle hloop, ok_bind]
    exact hf
  have h := hmono (Nat.le_max_left fuel fuel') h
  have h' := hmono (Nat.le_max_right fuel fuel') h'
  exact Except.ok.inj (h.symm.trans h')

variable {current_info : FileInfo} {dir_table : FAT32DirectoryTable} {i : Fin 64} {slots : List (Fin 64)}
  {st st' : FindState}

theorem enqueue_folder_shown (h : enqueue_folder current_info dir_table i st = .ok st') :
    st'.shown = st.shown := by
  rw [enqueue_folder] at h
  split_ifs at h
  · obtain ⟨info, -, h⟩ := bind_ok h
    obtain rfl := Except.ok.inj h
    rfl
  · obtain rfl := Except.ok.inj h
    rfl

theorem report_shown (h : report v s target_name current_info dir_table i st = .ok st') :
    ∃ line, st'.shown = st.shown ++ [line, .chars [10] WHITE] := by
  obtain ⟨_, -, h⟩ := bind_ok h
  obtain ⟨_, -, h⟩ := bind_ok h
  obtain ⟨_, -, h⟩ := bind_ok h
  obtain ⟨line, -, h⟩ := bind_ok h
  obtain rfl := Except.ok.inj h
  exact ⟨line, rfl⟩

theorem find_entry_shown (h : find_entry v s target_name current_info dir_table i st = .ok st') :
    st.shown <+: st'.shown ∧ (strcmp (table_bytes dir_table i) (cstring target_name) = some 0 →
      .chars [10] WHITE ∈ st'.shown) := by
  obtain ⟨st₁, henqueue, h⟩ := bind_ok h
  rw [← enqueue_folder_shown henqueue]
  split at h
  · exact absurd h (by simp)
  · rename_i c hc
    rw [hc, Option.some_inj]
    split_ifs at h with h0
    · obtain ⟨line, hshown⟩ := report_shown h
      rw [hshown]
      exact ⟨List.prefix_append _ _, fun _ => by simp⟩
    · obtain rfl := Except.ok.inj h
      exact ⟨List.prefix_rfl, fun hc0 => absurd hc0 h0⟩

/-- **The loop over a table** shows something for an entry that passes. -/
theorem find_entries_shown (h : find_entries v s target_name current_info dir_table slots st = .ok st') :
    st.shown <+: st'.shown ∧ ∀ i ∈ slots, (dir_table i).InUse →
      strcmp (table_bytes dir_table i) (cstring target_name) = some 0 → .chars [10] WHITE ∈ st'.shown := by
  induction slots generalizing st with
  | nil =>
    obtain rfl := Except.ok.inj h
    exact ⟨List.prefix_rfl, fun i hi => absurd hi List.not_mem_nil⟩
  | cons j slots ih =>
    rw [find_entries] at h
    split_ifs at h with hu
    · obtain ⟨st₁, hentry, h⟩ := bind_ok h
      obtain ⟨hkept, hpass⟩ := find_entry_shown hentry
      obtain ⟨hkept', hpass'⟩ := ih h
      refine ⟨hkept.trans hkept', fun i hi hui hstrcmp => ?_⟩
      rcases List.mem_cons.mp hi with rfl | hi
      · exact hkept'.subset (hpass hstrcmp)
      · exact hpass' i hi hui hstrcmp
    · obtain ⟨hkept, hpass⟩ := ih h
      refine ⟨hkept, fun i hi hui hstrcmp => ?_⟩
      rcases List.mem_cons.mp hi with rfl | hi
      · exact absurd hui hu
      · exact hpass i hi hui hstrcmp

theorem find_loop_shown {isFirst : Bool} (h : find_loop v s target_name fuel isFirst st = .ok st') :
    st.shown <+: st'.shown := by
  induction fuel generalizing isFirst st with
  | zero => exact absurd h (by simp [find_loop])
  | succ fuel ih =>
    rw [find_loop] at h
    split at h
    · obtain rfl := Except.ok.inj h
      exact List.prefix_rfl
    · split_ifs at h
      · obtain ⟨st₁, hentries, h⟩ := bind_ok h
        exact (find_entries_shown hentries).1.trans (ih h)
      · exact (List.prefix_append _ _).trans (ih h)

end

end KeropOS
