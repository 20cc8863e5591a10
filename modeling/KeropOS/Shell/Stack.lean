import KeropOS.Lib.Trail
import KeropOS.Shell.Cede
import KeropOS.Shell.Tables
import KeropOS.Fat.Calls

/-!
# The stack of directories

* `Leads`: an entry of one directory leads to another; `OnTree`: the stack is a trail of such entries
  from the root;
* `Climbs`, `Looks`: what the argument of `cd` asks for; `Entered`: the entry that `find_folder` takes;
* `Meets`: there is a place for the name on the stack, and the entry found leads on by it;
* **`Cd.rooted_iff`**: the step lemma, for any edges; **`cd_on_tree_iff`**: one command;
* **`stack_on_tree_iff`**: every sequence of commands;
* **`stack_live`**, `meets_of_names`: the same in a state of the driver.
-/

namespace KeropOS

open Packed Transition Trails

/-! ## The promise -/

/-- An entry of the directory at `c`, a folder in use with this name, has cluster `c'`. -/
def Leads (s : Fs) (c : UInt32) (name : Bytes 8) (c' : UInt32) : Prop :=
  ∃ i, (tableAt s (clusterIndex c) i).InUse ∧ (tableAt s (clusterIndex c) i).attr = ATTR_SUBDIRECTORY ∧
    (tableAt s (clusterIndex c) i).name = name ∧ (tableAt s (clusterIndex c) i).cluster = c'

/-- The stack starts at the root and goes on by edges, each with the name kept for the directory it leads
to. -/
structure Rooted (edge : UInt32 → Bytes 8 → UInt32 → Prop) (st : DirStack) : Prop where
  root : ∀ k, k.val = 0 → st.dir_stack k = ROOT_CLUSTER_NUMBER
  trail : Trail edge st.dir_stack st.dir_name_stack st.dir_stack_index

/-- Each directory on the stack is reached from the one below by an entry with the name kept for it. -/
def OnTree (s : Fs) (st : DirStack) : Prop := Rooted (Leads s) st

/-- One `cd`. -/
def Cd (s : Fs) (st : DirStack) (arg : Buffer) (st' : DirStack) : Prop :=
  ∃ fuel text, cede fuel s arg st = .ok (text, st')

/-! ## The inputs -/

/-- The argument has `"../"` at its front `k` times. -/
def Climbs (arg : Buffer) (k : ℕ) : Prop :=
  (∀ j < k, strcmp dot_dot_slash (shift arg (3 * j)) = some 0) ∧
    strcmp dot_dot_slash (shift arg (3 * k)) ≠ some 0

/-- The argument asks for a name in the directory on top of a stack: after `k` times `"../"` comes `".."`,
below which there is another directory, or neither `".."` nor `"."`. -/
inductive Looks (arg : Buffer) (st : DirStack) : DirStack → Bytes 8 → Prop
  | parent {k : ℕ} (climbs : Climbs arg k) (up : strcmp dot_dot (shift arg (3 * k)) = some 0)
      (above : 1 < (st.up (k % 256)).dir_stack_index) :
      Looks arg st ((st.up (k % 256)).up 1) (dir_name (shift arg (3 * k)))
  | child {k : ℕ} (climbs : Climbs arg k) (up : strcmp dot_dot (shift arg (3 * k)) ≠ some 0)
      (here : strcmp [shift arg (3 * k) 0, shift arg (3 * k) 1] (cstring dot) ≠ some 0) :
      Looks arg st (st.up (k % 256)) (dir_name (shift arg (3 * k)))

/-- The name of entry `i`, a folder, is at the front of `name`. -/
def FoundFolder (t : FAT32DirectoryTable) (name : Bytes 8) (i : Fin 64) : Prop :=
  FoundIn t (request_name name) i ∧ (t i).attr = ATTR_SUBDIRECTORY ∧ (t i).filesize = 0

/-- Entry `i` is the first such from slot 1 on. -/
def Entered (t : FAT32DirectoryTable) (name : Bytes 8) (i : Fin 64) : Prop :=
  i ≠ 0 ∧ FoundFolder t name i ∧ ∀ j < i, j ≠ 0 → ¬ FoundFolder t name j

/-- The stack has a place for another name, and the entry found leads on by the name asked for. -/
def Meets (s : Fs) (arg : Buffer) (st : DirStack) : Prop :=
  ∀ st₁ name, Looks arg st st₁ name → st₁.dir_stack_index < 16 ∧
    ∀ i, Entered (tableAt s (clusterIndex (st₁.cluster 0))) name i →
      Leads s (st₁.cluster 0) name (tableAt s (clusterIndex (st₁.cluster 0)) i).cluster

/-! ## The argument -/

section Argument

variable {arg : Buffer} {st st₁ : DirStack} {name : Bytes 8} {k l n fuel : ℕ}

theorem shift_zero (m : Buffer) : shift m 0 = m := by
  funext a
  rw [shift, Nat.zero_add]

theorem shift_shift (m : Buffer) (k l : ℕ) : shift (shift m k) l = shift m (k + l) := by
  funext a
  rw [shift, shift, shift, Nat.add_assoc]

theorem DirStack.up_zero (st : DirStack) : st.up 0 = st := by
  unfold DirStack.up
  congr 1
  rw [if_neg (Nat.not_le.mpr st.pos), Nat.sub_zero]

theorem Climbs.unique (h : Climbs arg k) (h' : Climbs arg l) : k = l := by
  apply Nat.le_antisymm
  · exact not_lt.mp fun hlt => h'.2 (h.1 l hlt)
  · exact not_lt.mp fun hlt => h.2 (h'.1 k hlt)

theorem Climbs.succ (hstart : strcmp dot_dot_slash arg = some 0) (h : Climbs (shift arg 3) k) :
    Climbs arg (k + 1) := by
  have hshift : ∀ j, shift (shift arg 3) (3 * j) = shift arg (3 * (j + 1)) := fun j => by
    rw [shift_shift, Nat.mul_succ, Nat.add_comm]
  constructor
  · intro j hj
    cases j with
    | zero => rwa [Nat.mul_zero, shift_zero]
    | succ j =>
      rw [← hshift]
      exact h.1 j (by omega)
  · rw [← hshift]
    exact h.2

/-- The loop over `"../"`. -/
theorem climb_spec {parseId p : ℕ} {rest : Buffer} (hstart : strcmp dot_dot_slash arg = some 0)
    (h : climb fuel parseId arg = .ok (p, rest)) :
    ∃ k, Climbs arg k ∧ p = parseId + k ∧ rest = shift arg (3 * k) := by
  induction fuel generalizing arg parseId with
  | zero =>
    rw [climb] at h
    exact absurd h (by simp)
  | succ fuel ih =>
    rw [climb] at h
    split_ifs at h with hmore
    · obtain ⟨k, hk, rfl, rfl⟩ := ih hmore h
      refine ⟨k + 1, hk.succ hstart, by omega, ?_⟩
      rw [shift_shift, Nat.mul_succ, Nat.add_comm]
    · obtain ⟨rfl, rfl⟩ := Prod.mk.inj (Except.ok.inj h)
      refine ⟨1, Climbs.succ hstart ⟨fun j hj => absurd hj (Nat.not_lt_zero j), ?_⟩, rfl, rfl⟩
      rwa [Nat.mul_zero, shift_zero]

theorem go_up_spec {rest : Buffer} (h : go_up fuel arg st = .ok (rest, st₁)) :
    ∃ k, Climbs arg k ∧ rest = shift arg (3 * k) ∧ st₁ = st.up (k % 256) := by
  rw [go_up] at h
  split_ifs at h with hstart
  · split at h
    · exact absurd h (by simp)
    · rename_i p rest' hclimb
      obtain ⟨rfl, rfl⟩ := Prod.mk.inj (Except.ok.inj h)
      obtain ⟨k, hk, rfl, rfl⟩ := climb_spec hstart hclimb
      exact ⟨k, hk, rfl, by rw [Nat.zero_add]⟩
  · obtain ⟨rfl, rfl⟩ := Prod.mk.inj (Except.ok.inj h)
    refine ⟨0, ⟨fun j hj => absurd hj (Nat.not_lt_zero j), ?_⟩, ?_, st.up_zero.symm⟩
    · rwa [Nat.mul_zero, shift_zero]
    · rw [Nat.mul_zero, shift_zero]

theorem go_up_returns (st : DirStack) (hend : arg n = 0) : ∃ reply, go_up (n + 1) arg st = .ok reply := by
  rw [go_up]
  split_ifs with hstart
  · obtain ⟨⟨p, rest⟩, h⟩ := climb_returns 0 hstart hend (Nat.lt_succ_self n)
    rw [h]
    exact ⟨_, rfl⟩
  · exact ⟨_, rfl⟩

theorem Looks.unique {st₂ : DirStack} {name' : Bytes 8} (h : Looks arg st st₁ name)
    (h' : Looks arg st st₂ name') : st₁ = st₂ ∧ name = name' := by
  cases h with
  | parent hk hup =>
    cases h' with
    | parent hk' =>
      obtain rfl := hk.unique hk'
      exact ⟨rfl, rfl⟩
    | child hk' hup' =>
      obtain rfl := hk.unique hk'
      exact absurd hup hup'
  | child hk hup =>
    cases h' with
    | parent hk' hup' =>
      obtain rfl := hk.unique hk'
      exact absurd hup' hup
    | child hk' =>
      obtain rfl := hk.unique hk'
      exact ⟨rfl, rfl⟩

end Argument

/-! ## The table -/

theorem strcmp_request_name (t : FAT32DirectoryTable) (i : Fin 64) (name : Bytes 8) :
    ∃ c, strcmp (table_bytes t i) (request_name name) = some c := by
  apply strcmp_ends (n := 7)
  · rw [request_name, dif_neg (by decide)]
  · rw [table_bytes, List.length_drop, List.length_ofFn]
    omega

/-- The loop takes the first entry that matches. -/
theorem find_folder_spec (t : FAT32DirectoryTable) (name : Bytes 8) {slots : List (Fin 64)}
    (hsort : slots.Pairwise (· < ·)) : ∃ found, find_folder t name slots = .ok found ∧ ∀ i, found = some i ↔
      i ∈ slots ∧ FoundFolder t name i ∧ ∀ j < i, j ∈ slots → ¬ FoundFolder t name j := by
  induction slots with
  | nil => exact ⟨none, rfl, fun i => by simp⟩
  | cons k slots ih =>
    obtain ⟨hk, hsort⟩ := List.pairwise_cons.mp hsort
    obtain ⟨c, hc⟩ := strcmp_request_name t k name
    have hmatch : (c = 0 ∧ (t k).attr = ATTR_SUBDIRECTORY ∧ (t k).filesize = 0) ↔ FoundFolder t name k := by
      rw [FoundFolder, FoundIn, hc, Option.some_inj]
    rw [find_folder, hc]
    simp only
    split_ifs with htaken
    · have hm := hmatch.mp htaken
      refine ⟨some k, rfl, fun i => ?_⟩
      rw [Option.some_inj]
      constructor
      · rintro rfl
        refine ⟨List.mem_cons_self .., hm, fun j hj hmem => ?_⟩
        rcases List.mem_cons.mp hmem with rfl | hmem
        · exact absurd hj (lt_irrefl _)
        · exact absurd hj (lt_asymm (hk j hmem))
      · rintro ⟨hmem, -, hfirst⟩
        rcases List.mem_cons.mp hmem with rfl | hmem
        · rfl
        · exact absurd hm (hfirst k (hk i hmem) (List.mem_cons_self ..))
    · have hm := hmatch.not.mp htaken
      obtain ⟨found, hfound, hiff⟩ := ih hsort
      refine ⟨found, hfound, fun i => (hiff i).trans ⟨?_, ?_⟩⟩
      · rintro ⟨hmem, hi, hfirst⟩
        refine ⟨List.mem_cons_of_mem _ hmem, hi, fun j hj hjmem => ?_⟩
        rcases List.mem_cons.mp hjmem with rfl | hjmem
        · exact hm
        · exact hfirst j hj hjmem
      · rintro ⟨hmem, hi, hfirst⟩
        rcases List.mem_cons.mp hmem with rfl | hmem
        · exact absurd hi hm
        · exact ⟨hmem, hi, fun j hj hjmem => hfirst j hj (List.mem_cons_of_mem _ hjmem)⟩

theorem find_folder_entered (t : FAT32DirectoryTable) (name : Bytes 8) :
    ∃ found, find_folder t name (List.finRange 64).tail = .ok found ∧
      ∀ i, found = some i ↔ Entered t name i := by
  obtain ⟨found, hfound, hiff⟩ := find_folder_spec t name (List.pairwise_lt_finRange 64).tail
  refine ⟨found, hfound, fun i => (hiff i).trans ?_⟩
  simp only [mem_slots]
  rfl

theorem Entered.unique {t : FAT32DirectoryTable} {name : Bytes 8} {i j : Fin 64} (h : Entered t name i)
    (h' : Entered t name j) : i = j := by
  apply le_antisymm
  · exact not_lt.mp fun hlt => h.2.2 j hlt h'.1 h'.2.1
  · exact not_lt.mp fun hlt => h'.2.2 i hlt h.1 h.2.1

/-! ## One command -/

section Command

variable {s : Fs} {arg : Buffer} {st st₁ st' : DirStack} {name : Bytes 8} {fuel n : ℕ} {text : Option String}

theorem enter_full (hfull : ¬ st.dir_stack_index < 16) : enter s name st = .error .outOfBounds := by
  unfold enter
  exact dif_neg hfull

/-- The name is stored, and the first folder that matches is entered. -/
theorem enter_cases (s : Fs) (name : Bytes 8) (hroom : st.dir_stack_index < 16) :
    (∃ i, Entered (tableAt s (clusterIndex (st.cluster 0))) name i ∧ enter s name st = .ok (none,
      (st.rename hroom name).push hroom (tableAt s (clusterIndex (st.cluster 0)) i).cluster)) ∨
    ((∀ i, ¬ Entered (tableAt s (clusterIndex (st.cluster 0))) name i) ∧
      ∃ text, enter s name st = .ok (text, st.rename hroom name)) := by
  obtain ⟨found, hfound, hiff⟩ := find_folder_entered (tableAt s (clusterIndex (st.cluster 0))) name
  rw [tableAt] at hfound
  unfold enter
  simp only [dif_pos hroom, read_clusters_eq, hfound]
  cases found with
  | none => exact .inr ⟨fun i hi => absurd ((hiff i).mpr hi) (by simp), _, rfl⟩
  | some i => exact .inl ⟨i, (hiff i).mp rfl, rfl⟩

/-- **What `enter` did** when it returned. -/
theorem enter_inv (h : enter s name st = .ok (text, st')) : ∃ hroom : st.dir_stack_index < 16,
    (∃ i, Entered (tableAt s (clusterIndex (st.cluster 0))) name i ∧ st' =
      (st.rename hroom name).push hroom (tableAt s (clusterIndex (st.cluster 0)) i).cluster) ∨
    ((∀ i, ¬ Entered (tableAt s (clusterIndex (st.cluster 0))) name i) ∧ st' = st.rename hroom name) := by
  by_cases hroom : st.dir_stack_index < 16
  · refine ⟨hroom, ?_⟩
    rcases enter_cases s name hroom with ⟨i, hi, heq⟩ | ⟨hnone, text', heq⟩
    · rw [heq] at h
      exact .inl ⟨i, hi, (Prod.mk.inj (Except.ok.inj h)).2.symm⟩
    · rw [heq] at h
      exact .inr ⟨hnone, (Prod.mk.inj (Except.ok.inj h)).2.symm⟩
  · rw [enter_full hroom] at h
    exact absurd h (by simp)

/-- The directory on top of the stack. -/
theorem cluster_zero (st : DirStack) {j : Fin 16} (hj : j.val + 1 = st.dir_stack_index) :
    st.cluster 0 = st.dir_stack j := by
  refine congrArg st.dir_stack (Fin.ext ?_)
  show st.dir_stack_index - (0 + 1) = j.val
  omega

/-- What goes on from a trail to a trail. -/
theorem enter_trail {edge : UInt32 → Bytes 8 → UInt32 → Prop}
    (htrail : Trail edge st.dir_stack st.dir_name_stack st.dir_stack_index)
    (h : enter s name st = .ok (text, st')) : Trail edge st'.dir_stack st'.dir_name_stack st'.dir_stack_index ↔
      ∀ i, Entered (tableAt s (clusterIndex (st.cluster 0))) name i →
        edge (st.cluster 0) name (tableAt s (clusterIndex (st.cluster 0)) i).cluster := by
  obtain ⟨hroom, hcases⟩ := enter_inv h
  have hnamed := htrail.relabel (i := ⟨st.dir_stack_index, hroom⟩) (b := name) le_rfl
  rcases hcases with ⟨k, hk, rfl⟩ | ⟨hnone, rfl⟩
  · have hself : Function.update st.dir_name_stack ⟨st.dir_stack_index, hroom⟩ name
        ⟨st.dir_stack_index, hroom⟩ = name := Function.update_self ..
    refine (hnamed.push_iff (i := ⟨st.dir_stack_index, hroom⟩) rfl).trans ?_
    rw [hself]
    constructor
    · intro hedge i hi
      obtain rfl := hk.unique hi
      rw [cluster_zero st (j := ⟨st.dir_stack_index - 1, by omega⟩) (Nat.sub_add_cancel st.pos)]
      exact hedge _ (Nat.sub_add_cancel st.pos)
    · intro hedge j hj
      rw [← cluster_zero st hj]
      exact hedge k hk
  · exact iff_of_true hnamed fun i hi => absurd hi (hnone i)

/-- **What `cede` does** with an argument whose `"../"` end. -/
theorem cede_cases (s : Fs) {rest : Buffer} (h : go_up fuel arg st = .ok (rest, st₁)) :
    (∃ st₂ name, Looks arg st st₂ name ∧ cede fuel s arg st = enter s name st₂) ∨
    ((∀ st₂ name, ¬ Looks arg st st₂ name) ∧ ∃ m, cede fuel s arg st = .ok (none, st.up m)) := by
  obtain ⟨k, hk, rfl, rfl⟩ := go_up_spec h
  unfold cede
  rw [h]
  simp only
  split_ifs with hup hone hhere
  · refine .inr ⟨fun st₂ name hlooks => ?_, _, rfl⟩
    cases hlooks with
    | parent hk' _ habove =>
      obtain rfl := hk.unique hk'
      omega
    | child hk' hup' =>
      obtain rfl := hk.unique hk'
      exact hup' hup
  · exact .inl ⟨_, _, .parent hk hup (by omega), rfl⟩
  · refine .inr ⟨fun st₂ name hlooks => ?_, _, rfl⟩
    cases hlooks with
    | parent hk' hup' =>
      obtain rfl := hk.unique hk'
      exact hup hup'
    | child hk' _ hhere' =>
      obtain rfl := hk.unique hk'
      exact hhere' hhere
  · exact .inl ⟨_, _, .child hk hup hhere, rfl⟩

theorem DirStack.up_le (st : DirStack) (m : ℕ) : (st.up m).dir_stack_index ≤ st.dir_stack_index := by
  have := st.pos
  unfold DirStack.up
  simp only
  split_ifs <;> omega

/-- A directory looked at lies on the stack. -/
theorem Looks.up (h : Looks arg st st₁ name) :
    st₁.dir_stack = st.dir_stack ∧ st₁.dir_name_stack = st.dir_name_stack ∧
      st₁.dir_stack_index ≤ st.dir_stack_index := by
  cases h with
  | parent => exact ⟨rfl, rfl, (DirStack.up_le _ 1).trans (st.up_le _)⟩
  | child => exact ⟨rfl, rfl, st.up_le _⟩

/-- **What one `cd` did.** -/
theorem Cd.cases (h : Cd s st arg st') :
    (∃ st₁ name text, Looks arg st st₁ name ∧ enter s name st₁ = .ok (text, st')) ∨
    ((∀ st₁ name, ¬ Looks arg st st₁ name) ∧ ∃ m, st' = st.up m) := by
  obtain ⟨fuel, text, h⟩ := h
  rcases hgo : go_up fuel arg st with t | ⟨rest, st₂⟩
  · unfold cede at h
    rw [hgo] at h
    exact absurd h (by simp)
  · rcases cede_cases s hgo with ⟨st₁, name, hlooks, heq⟩ | ⟨hnone, m, heq⟩
    · exact .inl ⟨st₁, name, text, hlooks, heq.symm.trans h⟩
    · rw [heq] at h
      exact .inr ⟨hnone, m, (Prod.mk.inj (Except.ok.inj h)).2.symm⟩

/-- `cede` returns exactly when there is a place for the name. -/
theorem cd_returns_iff (s : Fs) (st : DirStack) (hend : arg n = 0) :
    (∃ st', Cd s st arg st') ↔ ∀ st₁ name, Looks arg st st₁ name → st₁.dir_stack_index < 16 := by
  constructor
  · rintro ⟨st', hcd⟩ st₁ name hlooks
    rcases hcd.cases with ⟨st₂, name', text, hlooks', henter⟩ | ⟨hnone, -⟩
    · obtain ⟨rfl, rfl⟩ := hlooks.unique hlooks'
      exact (enter_inv henter).1
    · exact absurd hlooks (hnone st₁ name)
  · intro hroom
    obtain ⟨⟨rest, st₂⟩, hgo⟩ := go_up_returns st hend
    rcases cede_cases s hgo with ⟨st₃, name, hlooks, heq⟩ | ⟨-, m, heq⟩
    · rcases enter_cases s name (hroom st₃ name hlooks) with ⟨i, -, henter⟩ | ⟨-, text, henter⟩
      · exact ⟨_, _, _, heq.trans henter⟩
      · exact ⟨_, _, _, heq.trans henter⟩
    · exact ⟨_, _, _, heq⟩

/-- The bottom of the stack stays. -/
theorem Cd.root (h : Cd s st arg st') {k : Fin 16} (hk : k.val = 0) : st'.dir_stack k = st.dir_stack k := by
  rcases h.cases with ⟨st₁, name, text, hlooks, henter⟩ | ⟨-, m, rfl⟩
  · obtain ⟨hstack, -⟩ := hlooks.up
    obtain ⟨hroom, ⟨i, -, rfl⟩ | ⟨-, rfl⟩⟩ := enter_inv henter
    · have hne : k ≠ ⟨st₁.dir_stack_index, hroom⟩ := fun e => by
        rw [e] at hk
        exact absurd hk (Nat.pos_iff_ne_zero.mp st₁.pos)
      exact (Function.update_of_ne hne _ _).trans (congrFun hstack k)
    · exact congrFun hstack k
  · rfl

/-- **The step lemma**: the stack goes on by edges exactly when the entry found is one. -/
theorem Cd.rooted_iff {edge : UInt32 → Bytes 8 → UInt32 → Prop} (hst : Rooted edge st) (h : Cd s st arg st') :
    Rooted edge st' ↔ ∀ st₁ name, Looks arg st st₁ name →
      ∀ i, Entered (tableAt s (clusterIndex (st₁.cluster 0))) name i →
        edge (st₁.cluster 0) name (tableAt s (clusterIndex (st₁.cluster 0)) i).cluster := by
  have htrail : Rooted edge st' ↔ Trail edge st'.dir_stack st'.dir_name_stack st'.dir_stack_index :=
    ⟨fun h' => h'.trail, fun h' => ⟨fun k hk => (h.root hk).trans (hst.root k hk), h'⟩⟩
  rw [htrail]
  rcases h.cases with ⟨st₁, name, text, hlooks, henter⟩ | ⟨hnone, m, rfl⟩
  · obtain ⟨hstack, hnames, hle⟩ := hlooks.up
    have htrail₁ : Trail edge st₁.dir_stack st₁.dir_name_stack st₁.dir_stack_index := by
      rw [hstack, hnames]
      exact hst.trail.mono hle
    refine (enter_trail htrail₁ henter).trans
      ⟨fun hedge st₂ name' hlooks' => ?_, fun hedge => hedge _ _ hlooks⟩
    obtain ⟨rfl, rfl⟩ := hlooks.unique hlooks'
    exact hedge
  · exact iff_of_true (hst.trail.mono (st.up_le m)) fun st₁ name hlooks => absurd hlooks (hnone st₁ name)

/-- **One command.** From a stack on the tree, `cd` ends on the tree exactly when there is a place for
the name, and the entry found leads on by it. -/
theorem cd_on_tree_iff (h : OnTree s st) (hend : arg n = 0) :
    (∃ st', Cd s st arg st' ∧ OnTree s st') ↔ Meets s arg st := by
  constructor
  · rintro ⟨st', hcd, h'⟩ st₁ name hlooks
    exact ⟨(cd_returns_iff s st hend).mp ⟨st', hcd⟩ st₁ name hlooks,
      (Cd.rooted_iff h hcd).mp h' st₁ name hlooks⟩
  · intro hmeets
    obtain ⟨st', hcd⟩ := (cd_returns_iff s st hend).mpr fun st₁ name hlooks => (hmeets st₁ name hlooks).1
    exact ⟨st', hcd, (Cd.rooted_iff h hcd).mpr fun st₁ name hlooks => (hmeets st₁ name hlooks).2⟩

end Command

/-! ## Runs -/

theorem rooted_shellStack (edge : UInt32 → Bytes 8 → UInt32 → Prop) (uninitialised : Fin 16 → UInt32) :
    Rooted edge (shellStack uninitialised) where
  root _ hk := if_pos hk
  trail := .one _ _

/-- **When the stack stays on the tree**: as long as each command finds a place on the stack, and the
entry it finds leads on by the name asked for. -/
theorem stack_on_tree_iff (s : Fs) (uninitialised : Fin 16 → UInt32) (args : List Buffer) (st : DirStack)
    (h : Run (fun st arg st' => Meets s arg st ∧ Cd s st arg st') (shellStack uninitialised) args st) :
    OnTree s st ∧ 1 ≤ st.dir_stack_index ∧ st.dir_stack_index ≤ 16 ∧
      ∀ arg n, arg n = 0 → ((∃ st', Cd s st arg st' ∧ OnTree s st') ↔ Meets s arg st) := by
  have htree : OnTree s st := by
    refine h.invariant (OnTree s) (fun st arg st' hst hstep => ?_) (rooted_shellStack _ uninitialised)
    obtain ⟨hmeets, hcd⟩ := hstep
    exact (Cd.rooted_iff hst hcd).mpr fun st₁ name hlooks => (hmeets st₁ name hlooks).2
  exact ⟨htree, st.pos, st.le, fun arg n hend => cd_on_tree_iff htree hend⟩

section Driver

variable {s : Fs} {arg : Buffer} {st st₁ : DirStack} {name : Bytes 8} {args : List Buffer}
  {uninitialised : Fin 16 → UInt32}

/-- In a state of the driver, the entry found is in use. -/
theorem Entered.held {p : ℕ} {i : Fin 64} (hs : Inv s) (hlive : Live s p) (h : Entered (tableAt s p) name i) :
    Held s p i := by
  refine ⟨hlive, h.1, by_contra fun hfree => ?_⟩
  have hattr := h.2.1.2.1
  rw [hs.free hlive hfree] at hattr
  exact absurd hattr (by decide)

/-- **In a state of the driver, every directory on the stack is live**, also where the names kept are not
those of the entries. -/
theorem stack_live (hs : Inv s) (h : Run (Cd s) (shellStack uninitialised) args st) :
    ∀ k, k.val < st.dir_stack_index → Live s (st.dir_stack k).toNat := by
  have hst : Rooted (fun c _ c' => Live s c.toNat → Live s c'.toNat) st := by
    refine h.invariant _ (fun st arg st' hst hcd => ?_) (rooted_shellStack _ uninitialised)
    refine (Cd.rooted_iff hst hcd).mpr fun st₁ name _ i hi hlive => ?_
    rw [clusterIndex_of_lt (hs.live_bounds hlive).2] at hi ⊢
    exact .sub hlive hi.1 (hi.held hs hlive).inUse hi.2.1.2.1
  refine hst.trail.induct (fun c => Live s c.toNat) (fun k hk => ?_) fun c _ c' hedge hc => hedge hc
  rw [hst.root k hk]
  exact .root

/-- In a state of the driver it is enough that the entry found has the name asked for. -/
theorem meets_of_names (hs : Inv s) (h : Run (Cd s) (shellStack uninitialised) args st)
    (hnames : ∀ st₁ name, Looks arg st st₁ name → st₁.dir_stack_index < 16 ∧
      ∀ i, Entered (tableAt s (clusterIndex (st₁.cluster 0))) name i →
        (tableAt s (clusterIndex (st₁.cluster 0)) i).name = name) : Meets s arg st := by
  intro st₁ name hlooks
  obtain ⟨hroom, hname⟩ := hnames st₁ name hlooks
  obtain ⟨hstack, -, hle⟩ := hlooks.up
  refine ⟨hroom, fun i hi => ⟨i, ?_, hi.2.1.2.1, hname i hi, rfl⟩⟩
  have hpos := st₁.pos
  have hlive : Live s (st₁.cluster 0).toNat := by
    rw [cluster_zero st₁ (j := ⟨st₁.dir_stack_index - 1, by omega⟩) (Nat.sub_add_cancel hpos), hstack]
    exact stack_live hs h _ (show st₁.dir_stack_index - 1 < st.dir_stack_index by omega)
  rw [clusterIndex_of_lt (hs.live_bounds hlive).2] at hi ⊢
  exact (hi.held hs hlive).inUse

end Driver

/-- What `cd` looks at from the root. -/
theorem Looks.cluster_root {arg : Buffer} {st₁ : DirStack} {name : Bytes 8}
    (h : Looks arg (shellStack 0) st₁ name) : clusterIndex (st₁.cluster 0) = 2 ∧ st₁.dir_stack_index < 16 := by
  obtain ⟨hstack, -, hle⟩ := h.up
  have hone : st₁.dir_stack_index = 1 := Nat.le_antisymm hle st₁.pos
  refine ⟨?_, by omega⟩
  rw [cluster_zero st₁ (j := ⟨0, by decide⟩) hone.symm, hstack]
  rfl

/-- `cd a` enters the folder `a`. -/
theorem stack_on_tree_folder_a : ∃ reply s st, Step (boot 0) (.write (small 2 97 0), reply) s ∧
    Cd s (shellStack 0) (cstring [97]) st ∧ OnTree s st := by
  obtain ⟨reply, s, c, hstep, -, ⟨hinv, -⟩, htable, -⟩ := boot_folder 0 97 (by decide)
  have hroom : ∀ st₁ name, Looks (cstring [97]) (shellStack 0) st₁ name → st₁.dir_stack_index < 16 :=
    fun st₁ name hlooks => hlooks.cluster_root.2
  have hlook : Looks (cstring [97]) (shellStack 0) ((shellStack 0).up 0) (small 2 97 0).name := by
    have hname : dir_name (shift (cstring [97]) (3 * 0)) = (small 2 97 0).name := by decide
    rw [← hname]
    exact .child ⟨fun j hj => absurd hj (Nat.not_lt_zero j), by decide⟩ (by decide) (by decide)
  have hmeets : Meets s (cstring [97]) (shellStack 0) := by
    refine meets_of_names hinv .nil fun st₁ name hlooks => ⟨hlooks.cluster_root.2, fun i hi => ?_⟩
    obtain ⟨-, rfl⟩ := hlooks.unique hlook
    rw [hlooks.cluster_root.1, htable] at hi ⊢
    have hi1 : i = 1 := by
      by_contra hne
      have hattr := hi.2.1.2.1
      rw [Function.update_of_ne hne, boot_slot 0 hi.1] at hattr
      exact absurd hattr (by decide)
    rw [hi1, Function.update_self]
    rfl
  obtain ⟨st, hcd⟩ := (cd_returns_iff s (shellStack 0) (show cstring [97] 1 = 0 by decide)).mpr hroom
  exact ⟨reply, s, st, hstep, hcd, (stack_on_tree_iff s 0 _ st (.single ⟨hmeets, hcd⟩)).1⟩

/-- `cd ab` enters the folder `a` as well, and keeps `ab` for its name. -/
theorem cd_keeps_longer_name : ∃ reply s st, Step (boot 0) (.write (small 2 97 0), reply) s ∧
    Cd s (shellStack 0) (cstring [97, 98]) st ∧ ¬ OnTree s st := by
  obtain ⟨reply, s, c, hstep, -, -, htable, -⟩ := boot_folder 0 97 (by decide)
  obtain ⟨st, hcd⟩ := (cd_returns_iff s (shellStack 0) (show cstring [97, 98] 2 = 0 by decide)).mpr
    fun st₁ name hlooks => hlooks.cluster_root.2
  have hlook : Looks (cstring [97, 98]) (shellStack 0) ((shellStack 0).up 0)
      (dir_name (shift (cstring [97, 98]) (3 * 0))) :=
    .child ⟨fun j hj => absurd hj (Nat.not_lt_zero j), by decide⟩ (by decide) (by decide)
  refine ⟨reply, s, st, hstep, hcd, fun htree => ?_⟩
  have hleads := (Cd.rooted_iff (rooted_shellStack _ 0) hcd).mp htree _ _ hlook
  obtain ⟨hroot, -⟩ := hlook.cluster_root
  rw [hroot, htable] at hleads
  have hentered : Entered (Function.update (tableAt (boot 0) 2) 1 (folderEntry (small 2 97 0).name 0 c))
      (dir_name (shift (cstring [97, 98]) (3 * 0))) 1 := by
    refine ⟨by decide, ⟨?_, ?_⟩, fun j hj hj0 => ?_⟩
    · apply foundIn_of_first
      · rw [Function.update_self]
        rfl
      · rw [Function.update_self]
        rfl
    · rw [Function.update_self]
      exact ⟨rfl, rfl⟩
    · exact absurd (Fin.pos_of_ne_zero hj0) (by omega)
  -- no entry of the root is called `ab`
  obtain ⟨i, -, hattr, hname, -⟩ := hleads 1 hentered
  rw [hroot, htable] at hattr hname
  by_cases hi1 : i = 1
  · rw [hi1, Function.update_self] at hname
    exact absurd (show (0 : UInt8) = 98 from congrFun hname 1) (by decide)
  · rw [Function.update_of_ne hi1] at hattr hname
    by_cases hi0 : i = 0
    · rw [hi0, boot_root, Function.update_self] at hname
      exact absurd (congrFun hname 0) (by decide)
    · rw [boot_slot 0 hi0] at hattr
      exact absurd hattr (by decide)

end KeropOS
