import KeropOS.Fat.Below
import KeropOS.Lib.LevelOrder
import KeropOS.Shell.Scan
import Mathlib.Data.Set.Card

/-!
# What `find` finds

The walk of `bfs_find` goes through the tree level by level. It looks at the slots from 1 on, in the root
from 2 on.

* `Scanned`, `subways`: the directories it comes to; `Passes`: the entries it finds;
* `Walkable`: there is room for the walk; `Searched`: the state in its midst;
* **`find_entries_eq`**, **`find_loop_visit`**, **`find_loop_eq`**: one table, one directory, all of them;
* **`bfs_find_eq`**: what is shown; **`mem_places`**, **`nodup_places`**: each entry that passes, once.
-/

namespace KeropOS

open Packed Linked Transition Rings LevelOrder

/-! ## What is looked for, and where -/

/-- The slots looked at: not slot 1 of the root. -/
def Looked (p : ℕ) (i : Fin 64) : Prop := i ≠ 0 ∧ ¬ (p = 2 ∧ i = 1)

/-- The ways through slots that are looked at. -/
inductive Scanned (s : Fs) : List ℕ → Prop
  | root : Scanned s [2]
  | sub {p c : ℕ} {t : List ℕ} {i : Fin 64} : Scanned s (p :: t) → Child s p i c → Looked p i →
    Scanned s (c :: p :: t)

/-- The folders in these slots. -/
def subfolders (s : Fs) (p : ℕ) (slots : List (Fin 64)) : List ℕ := slots.filterMap fun i =>
  if (tableAt s p i).InUse ∧ (tableAt s p i).attr = ATTR_SUBDIRECTORY then
    some (tableAt s p i).cluster.toNat
  else none

/-- The ways that go on from a way. -/
def subways (s : Fs) : List ℕ → List (List ℕ)
  | [] => []
  | p :: t => (subfolders s p (find_slots (p = 2))).map fun c => c :: p :: t

/-- The entry is in use, and the comparison lets it pass. -/
def Passes (s : Fs) (target : List UInt8) (p : ℕ) (i : Fin 64) : Prop :=
  (tableAt s p i).InUse ∧ FoundIn (tableAt s p) (cstring target) i

instance (s : Fs) (target : List UInt8) (p : ℕ) (i : Fin 64) : Decidable (Passes s target p i) :=
  inferInstanceAs (Decidable (_ ∧ _))

/-- The entries that are looked at and pass. -/
def Passing (s : Fs) (target : List UInt8) : Set (ℕ × Fin 64) :=
  {x | (∃ t, Scanned s (x.1 :: t)) ∧ Looked x.1 x.2 ∧ Passes s target x.1 x.2}

/-- Those in these slots. -/
def hitsIn (s : Fs) (target : List UInt8) (p : ℕ) (slots : List (Fin 64)) : List (Fin 64) :=
  slots.filter fun i => decide (Passes s target p i)

/-- Those in the directory at the end of a way. -/
def hitsOf (s : Fs) (target : List UInt8) : List ℕ → List (List ℕ × Fin 64)
  | [] => []
  | p :: t => (hitsIn s target p (find_slots (p = 2))).map fun i => (p :: t, i)

/-- What is shown for an entry: the way to it, its name, and for a file its extension. -/
def line (way target : List UInt8) (e : FAT32DirectoryEntry) : List Shown :=
  if e.attr = ATTR_SUBDIRECTORY then [.chars (way ++ target) LIGHT_PURPLE, .chars [10] WHITE]
  else [.chars (way ++ target ++ 46 :: text_of e.ext) WHITE, .chars [10] WHITE]

/-- The directories in the order of the walk. -/
def walkOrder (s : Fs) : List (List ℕ) := (List.range' 0 16).flatMap (level (subways s) [[2]])

/-- The entries found, in the order of the walk. -/
def allHits (s : Fs) (target : List UInt8) : List (List ℕ × Fin 64) := (walkOrder s).flatMap (hitsOf s target)

/-- What is shown when `n_found` is 0. -/
def notFound : Shown := .message (puts "Tidak ada file/folder yang ditemukan \n" 39) RED

def hitLine (s : Fs) (target : List UInt8) (x : List ℕ × Fin 64) : List Shown :=
  line (wayText s x.1) target (tableAt s (x.1.headD 0) x.2)

/-- The walk comes to its end: there is room in the queue, in `clusterpathing` and in `path`. -/
structure Walkable (v : FindLocals) (s : Fs) (target : List UInt8) : Prop where
  depth : ∀ t, Scanned s t → t.length ≤ 16
  room : Roomy (subways s) [[2]] 20
  path : (Passing s target).Nonempty → v.path 0 = 0
  fits : ∀ p t i, Scanned s (p :: t) → (p, i) ∈ Passing s target →
    (wayText s (p :: t)).length + target.length + 4 < 160
  ext : ∀ x ∈ Passing s target, (tableAt s x.1 x.2).attr ≠ ATTR_SUBDIRECTORY →
    0 ∉ List.ofFn (tableAt s x.1 x.2).ext → (v.behind_ext (UInt32.ofNat x.1) x.2).head? = some 0

section

variable {s : Fs} {p c : ℕ} {t : List ℕ} {i : Fin 64}

theorem Scanned.way (h : Scanned s t) : Way s t := by
  induction h with
  | root => exact .root
  | sub _ hc _ ih => exact .sub ih hc

theorem Scanned.not_root (hs : Inv s) (h : Scanned s t) (hne : t ≠ [2]) : ∃ p t', t = p :: t' ∧ p ≠ 2 := by
  cases h with
  | root => exact absurd rfl hne
  | sub _ hc _ =>
    have := hc.three_le hs
    exact ⟨_, _, rfl, by omega⟩

theorem mem_drop_finRange {k : ℕ} : i ∈ (List.finRange 64).drop k ↔ k ≤ i.val := by
  rw [List.mem_drop_iff_getElem]
  simp only [List.getElem_finRange, List.length_finRange]
  constructor
  · rintro ⟨j, hj, rfl⟩
    exact Nat.le_add_right k j
  · intro hk
    exact ⟨i.val - k, by omega, Fin.ext (by simp only [Fin.val_cast]; omega)⟩

/-- The slots that the loop runs over. -/
theorem mem_find_slots : i ∈ find_slots (p = 2) ↔ Looked p i := by
  have h0 : i ≠ 0 ↔ 1 ≤ i.val := ⟨fun h => Nat.pos_of_ne_zero fun e => h (Fin.ext e),
    fun h e => by simp [e] at h⟩
  have h1 : i ≠ 1 ↔ i.val ≠ 1 := not_congr Fin.ext_iff
  rw [find_slots, mem_drop_finRange, Looked, h0]
  by_cases hp : p = 2
  · simp only [hp, decide_true, if_true, true_and]
    rw [← ne_eq, h1]
    omega
  · simp [hp]

end

/-! ## One directory -/

/-- In the midst of the loop: these directories wait, and these entries were shown. -/
structure Searched (v : FindLocals) (s : Fs) (target : List UInt8) (queue : List (List ℕ))
    (hits : List (List ℕ × Fin 64)) (st : FindState) : Prop where
  queue : st.queue.Holds (queue.map (infoOf s v.clusterpathing))
  path : (Passing s target).Nonempty → st.path 0 = 0
  count : st.n_found = Int8.ofNat hits.length
  shown : st.shown = hits.flatMap (hitLine s target)

section

variable {v : FindLocals} {s : Fs} {target : List UInt8} {p c : ℕ} {t : List ℕ} {i : Fin 64}
    {slots : List (Fin 64)}
  {queue : List (List ℕ)} {hits : List (List ℕ × Fin 64)} {st : FindState}

theorem subfolders_cons (s : Fs) (p : ℕ) (i : Fin 64) (slots : List (Fin 64)) :
    subfolders s p (i :: slots) = subfolders s p [i] ++ subfolders s p slots := by
  unfold subfolders
  rw [← List.filterMap_append, List.singleton_append]

theorem subfolders_single : subfolders s p [i] =
    if (tableAt s p i).InUse ∧ (tableAt s p i).attr = ATTR_SUBDIRECTORY then
      [(tableAt s p i).cluster.toNat] else [] := by
  rw [subfolders, List.filterMap_cons]
  split_ifs <;> rfl

theorem hitsIn_single : hitsIn s target p [i] = if Passes s target p i then [i] else [] := by
  rw [hitsIn, List.filter_cons]
  split_ifs with hdec hpass hpass
  · rfl
  · exact absurd (of_decide_eq_true hdec) hpass
  · exact absurd (decide_eq_true hpass) hdec
  · rfl

theorem mem_subfolders : c ∈ subfolders s p slots ↔ ∃ i ∈ slots, (tableAt s p i).InUse ∧
    (tableAt s p i).attr = ATTR_SUBDIRECTORY ∧ (tableAt s p i).cluster.toNat = c := by
  rw [subfolders, List.mem_filterMap]
  refine exists_congr fun i => and_congr_right fun _ => ?_
  split_ifs with h
  · simp [h]
  · exact iff_of_false (by simp) fun h' => h ⟨h'.1, h'.2.1⟩

theorem held_of_looked (hscan : Scanned s (p :: t)) (hi : Looked p i) (hu : (tableAt s p i).InUse) :
    Held s p i :=
  ⟨hscan.way.live p (List.mem_cons_self ..), hi.1, hu⟩

/-- A directory entry has no size, and its last byte that the source does not name is zero. -/
theorem Held.fields (hs : Inv s) (h : Held s p i) :
    ((tableAt s p i).filesize = 0 ↔ (tableAt s p i).attr = ATTR_SUBDIRECTORY) ∧
    (tableAt s p i).undelete = 0 := by
  obtain ⟨l, hl⟩ := hs.sound h
  rcases hl.kind with hf | hd
  · refine ⟨iff_of_false hf.size.ne_zero hf.attr, ?_⟩
    rw [hf.eq]
    rfl
  · have hsize : (tableAt s p i).filesize = 0 := by
      rw [hd.eq]
      rfl
    refine ⟨iff_of_true hsize hd.attr, ?_⟩
    rw [hd.eq]
    rfl

variable (hs : Inv s) (hroot : RootSelf s) (hnamed : ProperNames s) (h : Walkable v s target)

include hs hnamed h

/-- A subfolder goes into the queue. -/
theorem enqueue_folder_eq (hscan : Scanned s (p :: t)) (hi : Looked p i) (hu : (tableAt s p i).InUse)
    (hst : Searched v s target queue hits st)
    (hroom : (queue ++ (subfolders s p [i]).map fun c => c :: p :: t).length ≤ 20) :
    ∃ st', enqueue_folder (infoOf s v.clusterpathing (p :: t)) (tableAt s p) i st = .ok st' ∧
      Searched v s target (queue ++ (subfolders s p [i]).map fun c => c :: p :: t) hits st' := by
  by_cases hattr : (tableAt s p i).attr = ATTR_SUBDIRECTORY
  · have hsub : subfolders s p [i] = [(tableAt s p i).cluster.toNat] := by
      rw [subfolders_single, if_pos ⟨hu, hattr⟩]
    have hchild : Child s p i (tableAt s p i).cluster.toNat := ⟨held_of_looked hscan hi hu, hattr, rfl⟩
    rw [hsub, List.map_singleton] at hroom ⊢
    rw [List.length_append, List.length_singleton] at hroom
    rw [enqueue_folder, if_pos hattr, sub_dir_info_eq hs hnamed hchild
      (h.depth _ (hscan.sub hchild hi)), ok_bind]
    refine ⟨_, rfl, ⟨?_, hst.path, hst.count, hst.shown⟩⟩
    rw [List.map_append, List.map_singleton]
    exact hst.queue.enqueue (by rw [List.length_map]; omega)
  · have hsub : subfolders s p [i] = [] := by
      rw [subfolders_single, if_neg fun hd => hattr hd.2]
    rw [hsub, List.map_nil, List.append_nil, enqueue_folder, if_neg hattr]
    exact ⟨st, rfl, hst⟩

omit hnamed in
theorem path_end_eq {path : List UInt8} (hscan : Scanned s (p :: t)) (hi : Looked p i)
    (hpass : Passes s target p i) (hlen : path.length + target.length + 4 < 160) :
    ∃ shown, path_end v (infoOf s v.clusterpathing (p :: t)) (tableAt s p) i (path ++ target) = .ok shown ∧
      [shown, .chars [10] WHITE] = line path target (tableAt s p i) := by
  have hsize := ((held_of_looked hscan hi hpass.1).fields hs).1
  by_cases hattr : (tableAt s p i).attr = ATTR_SUBDIRECTORY
  · rw [path_end, if_neg (not_not.mpr (hsize.mpr hattr)), line, if_pos hattr]
    exact ⟨_, rfl, rfl⟩
  · have hstring : string_at (46 :: List.ofFn (tableAt s p i).ext ++ v.behind_ext (UInt32.ofNat p) i) =
        .ok (46 :: text_of (tableAt s p i).ext) := by
      refine string_at_append fun hzero => h.ext (p, i) ⟨⟨t, hscan⟩, hi, hpass⟩ hattr fun hm => hzero ?_
      exact List.mem_cons_of_mem _ hm
    have hext := length_text_of_le (tableAt s p i).ext
    have hfits : (path ++ target ++ 46 :: text_of (tableAt s p i).ext).length < 160 := by
      rw [List.length_append, List.length_append, List.length_cons]
      omega
    rw [path_end, if_pos (hsize.not.mpr hattr), line, if_neg hattr]
    refine ⟨.chars (path ++ target ++ 46 :: text_of (tableAt s p i).ext) WHITE, ?_, rfl⟩
    refine (congrArg (· >>= _) hstring).trans ?_
    rw [ok_bind, custom_strcat, if_pos hfits, ok_bind]

include hroot

/-- An entry that was found is shown. -/
theorem report_eq (hscan : Scanned s (p :: t)) (hi : Looked p i) (hpass : Passes s target p i)
    (hst : Searched v s target queue hits st) :
    ∃ st', report v s target (infoOf s v.clusterpathing (p :: t)) (tableAt s p) i st = .ok st' ∧
      Searched v s target queue (hits ++ [(p :: t, i)]) st' := by
  have hpassing : (p, i) ∈ Passing s target := ⟨⟨t, hscan⟩, hi, hpass⟩
  have hroom := h.fits p t i hscan hpassing
  obtain ⟨rest, hrest⟩ : ∃ rest, List.ofFn st.path = 0 :: rest := by
    rw [List.ofFn_succ, hst.path ⟨_, hpassing⟩]
    exact ⟨_, rfl⟩
  have hempty : string_at (List.ofFn st.path) = .ok [] :=
    string_at_eq ⟨rest, by rw [hrest]; rfl⟩ List.not_mem_nil
  have hnames := hscan.way.path_names v.clusterpathing hs hroot hnamed (h.depth _ hscan)
  obtain ⟨shown, hend, hline⟩ := path_end_eq hs h hscan hi hpass hroom
  have hfits : (wayText s (p :: t) ++ target).length < 160 := by
    rw [List.length_append]
    omega
  refine ⟨{ st with
    path := 0, n_found := st.n_found + 1, shown := st.shown ++ [shown, .chars [10] WHITE] }, ?_,
    ⟨hst.queue, fun _ => rfl, ?_, ?_⟩⟩
  · rw [report, hempty, ok_bind]
    refine (congrArg (· >>= _) hnames).trans ?_
    rw [ok_bind, custom_strcat, if_pos hfits, ok_bind, hend, ok_bind]
  · show st.n_found + 1 = _
    rw [hst.count, List.length_append, List.length_singleton, Int8.ofNat_add]
    rfl
  · show st.shown ++ _ = _
    rw [hst.shown, hline, List.flatMap_append, List.flatMap_singleton, hitLine, List.headD_cons]

/-- One entry in use. -/
theorem find_entry_eq (hscan : Scanned s (p :: t)) (hi : Looked p i) (hu : (tableAt s p i).InUse)
    (hst : Searched v s target queue hits st)
    (hroom : (queue ++ (subfolders s p [i]).map fun c => c :: p :: t).length ≤ 20) :
    ∃ st', find_entry v s target (infoOf s v.clusterpathing (p :: t)) (tableAt s p) i st = .ok st' ∧
      Searched v s target (queue ++ (subfolders s p [i]).map fun c => c :: p :: t)
        (hits ++ (hitsIn s target p [i]).map fun i => (p :: t, i)) st' := by
  obtain ⟨st₁, henqueue, hst₁⟩ := enqueue_folder_eq hs hnamed h hscan hi hu hst hroom
  have hend : (table_bytes (tableAt s p) i)[12 + 1]? = some 0 := by
    rw [table_bytes_undelete, ((held_of_looked hscan hi hu).fields hs).2]
  obtain ⟨c, hc⟩ := strcmp_returns (cstring target) hend
  have hpass : Passes s target p i ↔ c = 0 := by rw [Passes, FoundIn, hc, Option.some_inj, and_iff_right hu]
  rw [find_entry, henqueue, ok_bind, hc]
  dsimp only
  by_cases hp : Passes s target p i
  · obtain ⟨st₂, hreport, hst₂⟩ := report_eq hs hroot hnamed h hscan hi hp hst₁
    rw [if_pos (hpass.mp hp), hitsIn_single, if_pos hp]
    exact ⟨st₂, hreport, hst₂⟩
  · rw [if_neg (hpass.not.mp hp), hitsIn_single, if_neg hp, List.map_nil, List.append_nil]
    exact ⟨st₁, rfl, hst₁⟩

/-- **The loop over a table**: its subfolders go into the queue, what passes is shown. -/
theorem find_entries_eq (hscan : Scanned s (p :: t)) (hslots : ∀ i ∈ slots, Looked p i)
    (hst : Searched v s target queue hits st)
    (hroom : (queue ++ (subfolders s p slots).map fun c => c :: p :: t).length ≤ 20) :
    ∃ st', find_entries v s target (infoOf s v.clusterpathing (p :: t)) (tableAt s p) slots st = .ok st' ∧
      Searched v s target (queue ++ (subfolders s p slots).map fun c => c :: p :: t)
        (hits ++ (hitsIn s target p slots).map fun i => (p :: t, i)) st' := by
  induction slots generalizing queue hits st with
  | nil =>
    refine ⟨st, rfl, ?_⟩
    rwa [subfolders, hitsIn, List.filterMap_nil, List.filter_nil, List.map_nil, List.map_nil, List.append_nil,
      List.append_nil]
  | cons i slots ih =>
    have hi := hslots i (List.mem_cons_self ..)
    have hslots' := fun j hj => hslots j (List.mem_cons_of_mem _ hj)
    have hhits : hitsIn s target p (i :: slots) = hitsIn s target p [i] ++ hitsIn s target p slots :=
      List.filter_append [i] slots
    rw [subfolders_cons, List.map_append, ← List.append_assoc] at hroom
    rw [subfolders_cons, hhits, List.map_append, List.map_append, ← List.append_assoc, ← List.append_assoc]
    by_cases hu : (tableAt s p i).InUse
    · obtain ⟨st₁, hentry, hst₁⟩ := find_entry_eq hs hroot hnamed h hscan hi hu hst (by
        rw [List.length_append] at hroom
        omega)
      obtain ⟨st₂, hrest, hst₂⟩ := ih hslots' hst₁ hroom
      refine ⟨st₂, ?_, hst₂⟩
      rw [find_entries, if_pos (show (tableAt s p i).user_attribute = UATTR_NOT_EMPTY from hu),
        hentry, ok_bind]
      exact hrest
    · have hsub : subfolders s p [i] = [] := by rw [subfolders_single, if_neg fun hd => hu hd.1]
      have hnone : hitsIn s target p [i] = [] := by rw [hitsIn_single, if_neg fun hp => hu hp.1]
      rw [hsub, List.map_nil, List.append_nil] at hroom
      rw [hsub, hnone, List.map_nil, List.map_nil, List.append_nil, List.append_nil, find_entries,
        if_neg (show ¬ (tableAt s p i).user_attribute = UATTR_NOT_EMPTY from hu)]
      exact ih hslots' hst hroom

/-! ## The walk -/

omit h in
/-- Every directory that waits can be read. -/
theorem read_waiting (hway : Way s t) :
    (read_directory s (find_request (infoOf s v.clusterpathing t))).1 = 0 := by
  rw [read_directory_code]
  cases hway with
  | root =>
    have hname : (padded (text_of (tableAt s 2 0).name) : Bytes 8) = root_name := by
      unfold RootSelf at hroot
      rw [hroot]
      decide
    show Listed (tableAt s (clusterIndex (UInt32.ofNat 2))) (padded (text_of (tableAt s 2 0).name))
    rw [hname]
    exact listed_root hroot
  | @sub p c t i hway hchild =>
    obtain ⟨n, hn, hname⟩ := hnamed p i hchild.held
    show Listed (tableAt s (clusterIndex (UInt32.ofNat p))) (padded (text_of (tableAt s c 0).name))
    rw [clusterIndex_ofNat (hs.live_bounds hchild.held.live).2, (hchild.self_name hs).1, hname,
      text_of_padded hn.le hn.no_zero, ← hname]
    exact hchild.listed_above hs hroot

/-- **One directory of the walk.** -/
theorem find_loop_visit (hscan : Scanned s (p :: t)) {isFirst : Bool} (hfirst : isFirst = decide (p = 2))
    (hst : Searched v s target ((p :: t) :: queue) hits st)
    (hroom : (queue ++ subways s (p :: t)).length ≤ 20)
    (fuel : ℕ) : ∃ st', find_loop v s target (fuel + 1) isFirst st = find_loop v s target fuel false st' ∧
      Searched v s target (queue ++ subways s (p :: t)) (hits ++ hitsOf s target (p :: t)) st' := by
  have hlive := hscan.way.live p (List.mem_cons_self ..)
  obtain ⟨q, hdequeue, hq⟩ := hst.queue.dequeue
  have hq : Searched v s target queue hits { st with queue := q } := ⟨hq, hst.path, hst.count, hst.shown⟩
  obtain ⟨st', hentries, hst'⟩ := find_entries_eq hs hroot hnamed h hscan
    (fun i hi => mem_find_slots.mp hi) hq hroom
  refine ⟨st', ?_, hst'⟩
  rw [find_loop, hdequeue]
  dsimp only
  rw [if_pos (read_waiting hs hroot hnamed hscan.way)]
  refine (congrArg (· >>= _) ?_).trans (ok_bind st' _)
  rw [hfirst]
  show find_entries v s target _ (table_of s (UInt32.ofNat p)) _ _ = _
  rw [table_of_eq hs hlive]
  exact hentries

/-- **The walk behind the root**, with enough fuel. -/
theorem find_loop_eq {order : List (List ℕ)} (hvisits : Visits (subways s) 20 queue order)
    (hscan : ∀ t ∈ order, Scanned s t ∧ t ≠ [2]) (hst : Searched v s target queue hits st) {fuel : ℕ}
    (hfuel : order.length < fuel) : ∃ st', find_loop v s target fuel false st = .ok st' ∧
      Searched v s target [] (hits ++ order.flatMap (hitsOf s target)) st' := by
  induction hvisits generalizing hits st fuel with
  | nil =>
    obtain ⟨fuel, rfl⟩ : ∃ f, fuel = f + 1 := ⟨fuel - 1, by simp only [List.length_nil] at hfuel; omega⟩
    refine ⟨st, ?_, ?_⟩
    · rw [find_loop, hst.queue.dequeue_nil]
    · rwa [List.flatMap_nil, List.append_nil]
  | @cons d queue order hroom _ ih =>
    obtain ⟨fuel, rfl⟩ : ∃ f, fuel = f + 1 := ⟨fuel - 1, by simp only [List.length_cons] at hfuel; omega⟩
    obtain ⟨hd, hne⟩ := hscan d (List.mem_cons_self ..)
    obtain ⟨p, t, rfl, hp⟩ := hd.not_root hs hne
    obtain ⟨st₁, hvisit, hst₁⟩ := find_loop_visit hs hroot hnamed h hd
      (decide_eq_false hp).symm hst hroom fuel
    obtain ⟨st₂, hrest, hst₂⟩ := ih (fun t ht => hscan t (List.mem_cons_of_mem _ ht)) hst₁
      (Nat.lt_of_succ_lt_succ hfuel)
    rw [List.flatMap_cons, ← List.append_assoc]
    exact ⟨st₂, hvisit.trans hrest, hst₂⟩

omit hs hroot hnamed h in
/-- The levels of the walk. -/
theorem mem_level_iff {k : ℕ} : t ∈ level (subways s) [[2]] k ↔ Scanned s t ∧ t.length = k + 1 := by
  constructor
  · intro ht
    induction k generalizing t with
    | zero =>
      rw [List.mem_singleton.mp ht]
      exact ⟨.root, rfl⟩
    | succ k ih =>
      obtain ⟨y, hy, hty⟩ := mem_level_succ.mp ht
      obtain ⟨hscan, hlen⟩ := ih hy
      match y, hty, hscan, hlen with
      | p :: y, hty, hscan, hlen =>
        obtain ⟨c, hc, rfl⟩ := List.mem_map.mp hty
        obtain ⟨i, hi, hu, hattr, hcluster⟩ := mem_subfolders.mp hc
        have hi := mem_find_slots.mp hi
        refine ⟨hscan.sub ⟨held_of_looked hscan hi hu, hattr, hcluster⟩ hi, ?_⟩
        rw [List.length_cons, hlen]
  · rintro ⟨hscan, hlen⟩
    induction hscan generalizing k with
    | root =>
      obtain rfl : k = 0 := by simpa using hlen.symm
      exact List.mem_singleton_self _
    | @sub p c t i _ hc hi ih =>
      obtain ⟨k, rfl⟩ : ∃ j, k = j + 1 := ⟨k - 1, by simp only [List.length_cons] at hlen; omega⟩
      refine mem_level_succ.mpr ⟨p :: t, ih (by simpa using hlen), List.mem_map.mpr ⟨c, ?_, rfl⟩⟩
      exact mem_subfolders.mpr ⟨i, mem_find_slots.mpr hi, hc.held.inUse, hc.attr, hc.cluster⟩

omit hs hroot hnamed in
theorem level_end : level (subways s) [[2]] 16 = [] := by
  refine List.eq_nil_iff_forall_not_mem.mpr fun t ht => ?_
  obtain ⟨hscan, hlen⟩ := mem_level_iff.mp ht
  have := h.depth t hscan
  omega

omit hs hroot hnamed h in
theorem nodup_find_slots (isFirst : Bool) : (find_slots isFirst).Nodup := by
  unfold find_slots
  exact (List.nodup_finRange 64).sublist (List.drop_sublist _ _)

omit hroot hnamed h in
/-- No folder of a directory is entered twice. -/
theorem nodup_subfolders (hscan : Scanned s (p :: t)) : (subfolders s p (find_slots (p = 2))).Nodup := by
  have hslots := nodup_find_slots (p = 2)
  have hlooked : ∀ i ∈ find_slots (p = 2), Looked p i := fun i => mem_find_slots.mp
  generalize find_slots (p = 2) = slots at hslots hlooked
  have hchild : ∀ i ∈ slots, (tableAt s p i).InUse ∧ (tableAt s p i).attr = ATTR_SUBDIRECTORY →
      Child s p i (tableAt s p i).cluster.toNat :=
        fun i hi hf => ⟨held_of_looked hscan (hlooked i hi) hf.1, hf.2, rfl⟩
  rw [subfolders, List.Nodup, List.pairwise_filterMap]
  refine hslots.imp_of_mem fun {i j} hi hj hne c hc d hd hcd => hne ?_
  split_ifs at hc hd with hfi hfj
  have heq : (tableAt s p i).cluster.toNat = (tableAt s p j).cluster.toNat :=
    (Option.some.inj hc).trans (hcd.trans (Option.some.inj hd).symm)
  have hj' := hchild j hj hfj
  rw [← heq] at hj'
  exact ((hchild i hi hfi).unique hj' hs).2

omit hs hroot hnamed in
theorem mem_walkOrder : t ∈ walkOrder s ↔ Scanned s t := by
  rw [walkOrder, mem_levels (level_end h)]
  refine ⟨fun ⟨k, hk⟩ => (mem_level_iff.mp hk).1, fun hscan => ⟨t.length - 1, mem_level_iff.mpr ⟨hscan, ?_⟩⟩⟩
  cases hscan <;> simp

omit hroot hnamed h in
theorem nodup_walkOrder : (walkOrder s).Nodup := by
  refine nodup_levels (List.nodup_singleton _) (fun k t ht => ?_) (fun x y z hy hz => ?_)
    (fun t => t.length - 1)
    (fun k t ht => ?_) 16
  · cases t with
    | nil => exact List.nodup_nil
    | cons p t =>
      refine (nodup_subfolders hs (mem_level_iff.mp ht).1).map fun a b hab => ?_
      exact (List.cons.inj hab).1
  · match y, z, hy, hz with
    | p :: y, q :: z, hy, hz =>
      obtain ⟨c, -, rfl⟩ := List.mem_map.mp hy
      obtain ⟨d, -, heq⟩ := List.mem_map.mp hz
      exact (List.cons.inj heq).2.symm
  · rw [(mem_level_iff.mp ht).2, Nat.add_sub_cancel]

omit hs hroot hnamed h in
theorem n_found_eq_zero (n : ℕ) : Int8.ofNat n = 0 ↔ 256 ∣ n := by
  rw [← Int8.toBitVec_inj, Int8.toBitVec_ofNat', BitVec.toNat_inj.symm, BitVec.toNat_ofNat,
    Nat.dvd_iff_mod_eq_zero]
  rfl

omit hs hnamed h in
/-- The root waits first. -/
theorem root_info_eq : root_info v root_text = infoOf s v.clusterpathing [2] := by
  have htext : text_of (tableAt s 2 0).name = root_text := by
    unfold RootSelf at hroot
    rw [hroot]
    decide
  rw [root_info, infoOf, FileInfo.mk.injEq]
  refine ⟨htext.symm, rfl, rfl, funext fun k => ?_, rfl⟩
  by_cases hk : k = ⟨0, by decide⟩
  · rw [hk]
    exact Function.update_self ..
  · have hk' : ¬ k.val < [2].length := fun hlt => hk (Fin.ext (Nat.lt_one_iff.mp hlt))
    rw [Function.update_of_ne hk, if_neg hk']

/-- **What `find` shows**: a line for each entry that the walk finds, and the message when the number of them is
a multiple of 256. -/
theorem bfs_find_eq : ∃ fuel, bfs_find fuel v s target =
    .ok ((allHits s target).flatMap (hitLine s target) ++
      if 256 ∣ (allHits s target).length then [notFound] else []) := by
  have hvisits : Visits (subways s) 20 [[2]] (walkOrder s) :=
    visits_levels (k := 0) (n := 16) h.room (level_end h)
  have hmem : ∀ t ∈ walkOrder s, Scanned s t := fun t => (mem_walkOrder h).mp
  have hnodup := nodup_walkOrder hs
  unfold allHits
  generalize walkOrder s = order at hvisits hmem hnodup
  cases hvisits with
  | @cons _ _ order hroom hrest =>
    have hstart : Searched v s target [[2]] []
        ⟨(Ring.create v.items).enqueue (root_info v root_text), v.path, 0, []⟩ := by
      refine ⟨?_, h.path, rfl, rfl⟩
      rw [root_info_eq hroot]
      exact (Ring.Holds.create v.items).enqueue (by decide)
    obtain ⟨st₁, hvisit, hst₁⟩ := find_loop_visit hs hroot hnamed h .root
      (decide_eq_true rfl).symm hstart hroom
      (order.length + 1)
    obtain ⟨st₂, hloop, hst₂⟩ := find_loop_eq hs hroot hnamed h hrest
      (fun t ht => ⟨hmem t (List.mem_cons_of_mem _ ht),
      fun he => (List.nodup_cons.mp hnodup).1 (he ▸ ht)⟩) hst₁ (Nat.lt_succ_self _)
    rw [List.nil_append, ← List.flatMap_cons] at hst₂
    refine ⟨order.length + 1 + 1, ?_⟩
    have hstrcpy : custom_strcpy 9 root_text = .ok root_text := rfl
    rw [bfs_find, hstrcpy, ok_bind]
    dsimp only
    rw [hvisit, hloop, ok_bind, hst₂.count, hst₂.shown]
    simp only [n_found_eq_zero]
    split_ifs
    · rfl
    · rw [List.append_nil]

/-! ### The entries found -/

omit hs hroot hnamed in
theorem mem_allHits : (p :: t, i) ∈ allHits s target ↔ Scanned s (p :: t) ∧ Looked p i ∧
    Passes s target p i := by
  rw [allHits, List.mem_flatMap]
  constructor
  · rintro ⟨y, hy, hx⟩
    have hy := (mem_walkOrder h).mp hy
    match y, hy, hx with
    | q :: y, hy, hx =>
      obtain ⟨j, hj, heq⟩ := List.mem_map.mp hx
      obtain ⟨hway, rfl⟩ := Prod.mk.inj heq
      obtain ⟨rfl, rfl⟩ := List.cons.inj hway
      obtain ⟨hj, hpass⟩ := List.mem_filter.mp hj
      exact ⟨hy, mem_find_slots.mp hj, of_decide_eq_true hpass⟩
  · rintro ⟨hscan, hi, hpass⟩
    refine ⟨p :: t, (mem_walkOrder h).mpr hscan, List.mem_map.mpr ⟨i, ?_, rfl⟩⟩
    exact List.mem_filter.mpr ⟨mem_find_slots.mpr hi, decide_eq_true hpass⟩

/-- The directory and the slot. -/
def place (x : List ℕ × Fin 64) : ℕ × Fin 64 := (x.1.headD 0, x.2)

omit hs hroot hnamed in
/-- A hit is an entry of the directory at the end of a way. -/
theorem exists_of_mem_allHits {x : List ℕ × Fin 64} (hx : x ∈ allHits s target) :
    ∃ p t, x.1 = p :: t ∧ Scanned s (p :: t) ∧ Looked p x.2 ∧ Passes s target p x.2 := by
  obtain ⟨y, i⟩ := x
  cases y with
  | nil =>
    obtain ⟨z, hz, hx⟩ := List.mem_flatMap.mp hx
    cases (mem_walkOrder h).mp hz <;> simp [hitsOf] at hx
  | cons p t => exact ⟨p, t, rfl, (mem_allHits h).mp hx⟩

omit hs hroot hnamed in
/-- **The walk finds the entries that are looked at and pass.** -/
theorem mem_places (x : ℕ × Fin 64) : x ∈ (allHits s target).map place ↔ x ∈ Passing s target := by
  rw [List.mem_map]
  constructor
  · rintro ⟨y, hy, rfl⟩
    obtain ⟨p, t, hway, hscan, hi, hpass⟩ := exists_of_mem_allHits h hy
    rw [place, hway]
    exact ⟨⟨t, hscan⟩, hi, hpass⟩
  · rintro ⟨⟨t, hscan⟩, hi, hpass⟩
    exact ⟨(x.1 :: t, x.2), (mem_allHits h).mpr ⟨hscan, hi, hpass⟩, rfl⟩

omit hroot hnamed h in
/-- There is one way to a directory. -/
theorem Way.unique {y z : List ℕ} (hy : Way s y) (hz : Way s z) (hhead : y.headD 0 = z.headD 0) : y = z := by
  induction hy generalizing z with
  | root =>
    cases hz with
    | root => rfl
    | @sub q d _ _ _ hd =>
      have hd := hd.three_le hs
      have hhead : 2 = d := hhead
      omega
  | @sub p c _ _ _ hc ih =>
    cases hz with
    | root =>
      have hc := hc.three_le hs
      have hhead : c = 2 := hhead
      omega
    | @sub q d _ _ hz hd =>
      obtain rfl : c = d := hhead
      obtain ⟨rfl, -⟩ := hc.unique hd hs
      rw [ih hz rfl]

omit hroot hnamed in
/-- **No entry is found twice.** -/
theorem nodup_places : ((allHits s target).map place).Nodup := by
  refine List.Nodup.map_on (fun x hx y hy hxy => ?_) ?_
  · obtain ⟨p, t, hx, hscan, -⟩ := exists_of_mem_allHits h hx
    obtain ⟨q, u, hy, hscan', -⟩ := exists_of_mem_allHits h hy
    obtain ⟨hhead, hslot⟩ := Prod.mk.inj hxy
    rw [hx, hy] at hhead
    have hway := hscan.way.unique hs hscan'.way hhead
    exact Prod.ext (by rw [hx, hy, hway]) hslot
  · rw [allHits, List.nodup_flatMap]
    refine ⟨fun y _ => ?_, (nodup_walkOrder hs).imp fun {y z} hne x hx hx' => hne ?_⟩
    · cases y with
      | nil => exact List.nodup_nil
      | cons p t =>
        exact ((nodup_find_slots _).filter _).map fun i j hij => (Prod.mk.inj hij).2
    · match y, z, hx, hx' with
      | p :: y, q :: z, hx, hx' =>
        obtain ⟨i, -, rfl⟩ := List.mem_map.mp hx
        obtain ⟨j, -, heq⟩ := List.mem_map.mp hx'
        exact (Prod.mk.inj heq).1.symm

end

end KeropOS
