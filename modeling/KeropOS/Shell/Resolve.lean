import KeropOS.Shell.Files

/-!
# Where `cd` leads

The argument is `"../"`, any number of times, and a last component. The count is taken modulo 256, a component
that starts with `".."` for `".."`, and the folder entered is the first that `strcmp` lets pass.

* `Final`: the last component; `Denotes`: the stack that a path stands for;
* `base`, `LooksUp`: where the pops lead, and the folder found there; **`cd_inv`**, `cd_exists`;
* `Arrives`; **`cd_resolves_iff`**: when `cd` ends with the stack that the path stands for.
-/

namespace KeropOS

open Packed Linked Transition

/-! ## Paths -/

/-- The last component of a path. -/
inductive Final
  | empty
  | parent
  | name (t : List UInt8)

namespace Final

def text : Final → List UInt8
  | empty => []
  | parent => [46, 46]
  | name t => t

/-- A name has one to eight characters, no slash among them, and is not `".."`. -/
def Ok : Final → Prop
  | name t => t ≠ [] ∧ t.length ≤ 8 ∧ 0 ∉ t ∧ 47 ∉ t ∧ t ≠ [46, 46]
  | _ => True

end Final

/-- `"../"`, `m` times, and a last component; `y` follows the argument. -/
def pathArg (m : ℕ) (f : Final) (y : Buffer) : Buffer := typed (ups m ++ f.text) y

/-- The two stacks hold the same directories, under the same names. -/
def Same (st st' : DirStack) : Prop :=
  st.dir_stack_index = st'.dir_stack_index ∧ ∀ k, k.val < st.dir_stack_index →
    st.dir_stack k = st'.dir_stack k ∧ st.dir_name_stack k = st'.dir_name_stack k

/-- The directory on top of the stack. -/
def top (s : Fs) (st : DirStack) : FAT32DirectoryTable := tableAt s (clusterIndex (st.cluster 0))

/-- Entry `i` is the folder `t`. -/
def IsNamed (t : FAT32DirectoryTable) (text : List UInt8) (i : Fin 64) : Prop :=
  i ≠ 0 ∧ (t i).InUse ∧ (t i).attr = ATTR_SUBDIRECTORY ∧ (t i).name = padded text

/-- What a path stands for: the directory `m` levels up, its parent, a folder in it; or, when the folder is not
there, where one is. The root is its own parent. -/
inductive Denotes (s : Fs) (st : DirStack) (m : ℕ) : Final → DirStack → Prop
  | empty : Denotes s st m .empty (st.up m)
  | parent : Denotes s st m .parent ((st.up m).up 1)
  | folder {t i} (room : (st.up m).dir_stack_index < 16) (named : IsNamed (top s (st.up m)) t i) :
      Denotes s st m (.name t) (((st.up m).rename room (padded t)).push room (top s (st.up m) i).cluster)
  | missing {t} (none : ∀ i, ¬ IsNamed (top s (st.up m)) t i) : Denotes s st m (.name t) st

/-! ## Where the pops lead -/

/-- The count is a `uint8_t`, and what starts with `".."` passes for it. -/
def base (st : DirStack) (m : ℕ) (f : Final) : DirStack :=
  if [46, 46] <+: f.text then (st.up (m % 256)).up 1 else st.up (m % 256)

/-- Entry `i` there is the first folder whose name is at the front of the component. Nothing is looked up for
`"."`, and for what starts with `".."` at the root. -/
def LooksUp (s : Fs) (st : DirStack) (m : ℕ) (f : Final) (y : Buffer) (i : Fin 64) : Prop :=
  f.text ≠ [46] ∧ ([46, 46] <+: f.text → 1 < (st.up (m % 256)).dir_stack_index) ∧
    Entered (top s (base st m f)) (dir_name (typed f.text y)) i

/-- **The condition**: nothing is found, and the pops lead to what the path stands for; or what is found is the
folder that the path stands for, and the eight bytes from the component on are its name. -/
inductive Arrives (s : Fs) (st : DirStack) (m : ℕ) (f : Final) (y : Buffer) (target : DirStack) : Prop
  | stays : (∀ i, ¬ LooksUp s st m f y i) → Same (base st m f) target → Arrives s st m f y target
  | enters {i} : LooksUp s st m f y i → (base st m f).dir_stack_index + 1 = target.dir_stack_index →
      target.name 0 = dir_name (typed f.text y) → target.cluster 0 = (top s (base st m f) i).cluster →
      Arrives s st m f y target

/-! ## The components, as `cede` sees them -/

section

variable {t : List UInt8} {y : Buffer} {f : Final}

theorem Final.Ok.no_zero (h : f.Ok) : 0 ∉ f.text := by
  cases f with
  | empty => exact List.not_mem_nil
  | parent => exact (by decide : (0 : UInt8) ∉ [46, 46])
  | name t => exact h.2.2.1

/-- A component does not start with `"../"`. -/
theorem Final.Ok.not_up (h : f.Ok) : strcmp dot_dot_slash (typed f.text y) ≠ some 0 := by
  intro hup
  obtain ⟨h0, h1, h2⟩ := prefix_dot_dot_slash hup
  cases f with
  | empty => exact absurd h0 (by simp [text, typed])
  | parent => exact absurd h2 (by simp [text, typed])
  | name t =>
    obtain ⟨-, -, -, hslash, hne⟩ := h
    rcases t with _ | ⟨a, _ | ⟨b, _ | ⟨c, t⟩⟩⟩
    · exact absurd h0 (by simp [text, typed])
    · exact absurd h1 (by simp [text, typed])
    · exact absurd h2 (by simp [text, typed])
    · have hc : c = 47 := h2
      exact hslash (by simp [hc])

theorem starts_dot_dot_iff (h : 0 ∉ t) : strcmp dot_dot (typed t y) = some 0 ↔ [46, 46] <+: t := by
  rw [dot_dot, strcmp_eq_zero_iff, strcmp_eq_zero_iff]
  match t with
  | [] => simp [typed]
  | [a] => simp [typed, shift]
  | a :: b :: t => simp [typed, shift, List.cons_prefix_cons]

theorem is_dot_iff (h : 0 ∉ t) :
    strcmp [typed t y 0, typed t y 1] (cstring dot) = some 0 ↔ t = [46] := by
  rw [strcmp_eq_zero_iff]
  match t with
  | [] => simp [typed, cstring, dot]
  | [a] => simp [typed, cstring, dot]
  | a :: b :: t =>
    have hb : b ≠ 0 := fun hb => h (by simp [hb])
    have hsingle : strcmp [b] (shift (cstring dot) 1) ≠ some 0 := by
      rw [strcmp]
      split_ifs with hne
      · exact fun h0 => hne (char_sub_eq_zero.mp (Option.some.inj h0))
      · simp
    have h1 : typed (a :: b :: t) y 1 = b := rfl
    rw [h1]
    simp [hb, hsingle]

end

/-! ## One command -/

section

variable {s : Fs} {st st' target : DirStack} {m : ℕ} {f : Final} {y : Buffer} {i : Fin 64}

theorem Same.refl (st : DirStack) : Same st st := ⟨rfl, fun _ _ => ⟨rfl, rfl⟩⟩

/-- The name stored above the stack is not part of it. -/
theorem same_rename (st : DirStack) (room : st.dir_stack_index < 16) (name : Bytes 8) :
    Same (st.rename room name) st := by
  refine ⟨rfl, fun k hk => ⟨rfl, Function.update_of_ne (fun h => ?_) _ _⟩⟩
  rw [h] at hk
  exact lt_irrefl _ hk

theorem base_up (st : DirStack) (m : ℕ) (f : Final) : (base st m f).dir_stack = st.dir_stack ∧
    (base st m f).dir_name_stack = st.dir_name_stack ∧
    (base st m f).dir_stack_index ≤ st.dir_stack_index := by
  unfold base
  split_ifs
  · exact ⟨rfl, rfl, (DirStack.up_le _ 1).trans (st.up_le _)⟩
  · exact ⟨rfl, rfl, st.up_le _⟩

theorem LooksUp.unique {i j : Fin 64} (h : LooksUp s st m f y i) (h' : LooksUp s st m f y j) : i = j :=
  h.2.2.unique h'.2.2

/-- What is left of the argument after its `"../"`. -/
theorem go_up_pathArg (hf : f.Ok) {fuel : ℕ} {rest : Buffer} {st₁ : DirStack}
    (h : go_up fuel (pathArg m f y) st = .ok (rest, st₁)) :
    rest = typed f.text y ∧ st₁ = st.up (m % 256) := by
  obtain ⟨k, hk, rfl, rfl⟩ := go_up_spec h
  obtain rfl := hk.unique (climbs_ups hf.not_up)
  rw [pathArg, ← length_ups, shift_typed]
  exact ⟨rfl, rfl⟩

/-- What `enter` does at the base. -/
theorem enter_base (hlook : f.text ≠ [46])
    (habove : [46, 46] <+: f.text → 1 < (st.up (m % 256)).dir_stack_index) {text : Option String}
    (h : enter s (dir_name (typed f.text y)) (base st m f) = .ok (text, st')) :
    (∃ i, LooksUp s st m f y i ∧ ∃ room : (base st m f).dir_stack_index < 16,
      st' = ((base st m f).rename room (dir_name (typed f.text y))).push room
        (top s (base st m f) i).cluster) ∨
    ((∀ i, ¬ LooksUp s st m f y i) ∧ Same st' (base st m f)) := by
  obtain ⟨room, ⟨i, hi, rfl⟩ | ⟨hnone, rfl⟩⟩ := enter_inv h
  · exact .inl ⟨i, ⟨hlook, habove, hi⟩, room, rfl⟩
  · exact .inr ⟨fun i hi => hnone i hi.2.2, same_rename _ room _⟩

/-- **What one `cd` did.** -/
theorem cd_inv (hf : f.Ok) (h : Cd s st (pathArg m f y) st') :
    (∃ i, LooksUp s st m f y i ∧ ∃ room : (base st m f).dir_stack_index < 16,
      st' = ((base st m f).rename room (dir_name (typed f.text y))).push room
        (top s (base st m f) i).cluster) ∨
    ((∀ i, ¬ LooksUp s st m f y i) ∧ Same st' (base st m f)) := by
  obtain ⟨fuel, text, h⟩ := h
  rw [cede] at h
  split at h
  · exact absurd h (by simp)
  · rename_i rest st₁ hgo
    obtain ⟨rfl, rfl⟩ := go_up_pathArg hf hgo
    have hstarts := starts_dot_dot_iff (y := y) hf.no_zero
    have hisDot := is_dot_iff (y := y) hf.no_zero
    by_cases hup : [46, 46] <+: f.text
    · have hbase : base st m f = (st.up (m % 256)).up 1 := if_pos hup
      rw [if_pos (hstarts.mpr hup)] at h
      split_ifs at h with hone
      · -- at the root
        obtain rfl := (Prod.mk.inj (Except.ok.inj h)).2
        refine .inr ⟨fun i hi => absurd (hi.2.1 hup) (not_lt.mpr hone), ?_⟩
        have hindex : (st.up (m % 256)).dir_stack_index = 1 := Nat.le_antisymm hone (DirStack.pos _)
        rw [hbase]
        refine ⟨?_, fun k hk => ⟨rfl, rfl⟩⟩
        rw [hindex]
        exact (if_pos hone).symm
      · rw [← hbase] at h
        refine enter_base (fun hdot => ?_) (fun _ => not_le.mp hone) h
        rw [hdot] at hup
        exact absurd hup (by decide)
    · have hbase : base st m f = st.up (m % 256) := if_neg hup
      rw [if_neg (hstarts.not.mpr hup), ← hbase] at h
      split_ifs at h with hdot
      · obtain rfl := (Prod.mk.inj (Except.ok.inj h)).2
        exact .inr ⟨fun i hi => hi.1 (hisDot.mp hdot), .refl _⟩
      · exact enter_base (hisDot.not.mp hdot) (fun h' => absurd h' hup) h

/-- Below the depth of sixteen, `cd` returns. -/
theorem cd_exists (s : Fs) (hroom : st.dir_stack_index < 16) (m : ℕ) (f : Final) (y : Buffer) :
    ∃ st', Cd s st (pathArg m f y) st' :=
  (cd_returns_iff s st (typed_end : pathArg m f y (ups m ++ f.text).length = 0)).mpr
    fun _ _ hlooks => hlooks.up.2.2.trans_lt hroom

/-! ## The stack that the path stands for -/

/-- Below its top it is the stack that there was. -/
theorem Denotes.below (h : Denotes s st m f target) {k : Fin 16} (hk : k.val + 1 < target.dir_stack_index) :
    target.dir_stack k = st.dir_stack k ∧ target.dir_name_stack k = st.dir_name_stack k := by
  cases h with
  | empty | parent | missing => exact ⟨rfl, rfl⟩
  | folder room named =>
    have hlt : k.val < (st.up m).dir_stack_index := Nat.lt_of_succ_lt_succ hk
    have hne : k ≠ ⟨(st.up m).dir_stack_index, room⟩ := fun e => by
      rw [e] at hlt
      exact lt_irrefl _ hlt
    exact ⟨Function.update_of_ne hne _ _, Function.update_of_ne hne _ _⟩

/-- Every path stands for a stack. -/
theorem exists_denotes (s : Fs) (hroom : st.dir_stack_index < 16) (m : ℕ) (f : Final) :
    ∃ target, Denotes s st m f target := by
  cases f with
  | empty => exact ⟨_, .empty⟩
  | parent => exact ⟨_, .parent⟩
  | name t =>
    by_cases h : ∃ i, IsNamed (top s (st.up m)) t i
    · obtain ⟨i, hi⟩ := h
      exact ⟨_, .folder ((st.up_le m).trans_lt hroom) hi⟩
    · exact ⟨_, .missing (not_exists.mp h)⟩

/-- Going on by one directory. -/
theorem same_push_iff {st₁ : DirStack} (room : st₁.dir_stack_index < 16) (name : Bytes 8) (c : UInt32)
    (hbelow : ∀ k : Fin 16, k.val + 1 < target.dir_stack_index →
      target.dir_stack k = st₁.dir_stack k ∧ target.dir_name_stack k = st₁.dir_name_stack k) :
    Same ((st₁.rename room name).push room c) target ↔
      st₁.dir_stack_index + 1 = target.dir_stack_index ∧ target.name 0 = name ∧ target.cluster 0 = c := by
  have htop : st₁.dir_stack_index + 1 = target.dir_stack_index →
    target.slot 0 = ⟨st₁.dir_stack_index, room⟩ := fun h =>
    Fin.ext (by simp only [DirStack.slot]; omega)
  constructor
  · rintro ⟨hindex, hsame⟩
    have hindex : st₁.dir_stack_index + 1 = target.dir_stack_index := hindex
    obtain ⟨hc, hn⟩ := hsame ⟨st₁.dir_stack_index, room⟩ (Nat.lt_succ_self _)
    refine ⟨hindex, ?_, ?_⟩
    · rw [DirStack.name, htop hindex, ← hn]
      exact Function.update_self ..
    · rw [DirStack.cluster, htop hindex, ← hc]
      exact Function.update_self ..
  · rintro ⟨hindex, hn, hc⟩
    refine ⟨hindex, fun k hk => ?_⟩
    have hk : k.val < st₁.dir_stack_index + 1 := hk
    by_cases hlast : k = ⟨st₁.dir_stack_index, room⟩
    · rw [DirStack.name, htop hindex, ← hlast] at hn
      rw [DirStack.cluster, htop hindex, ← hlast] at hc
      rw [hn, hc, hlast]
      exact ⟨Function.update_self .., Function.update_self ..⟩
    · have hlt : k.val + 1 < target.dir_stack_index := by
        have : k.val ≠ st₁.dir_stack_index := fun e => hlast (Fin.ext e)
        omega
      obtain ⟨hc', hn'⟩ := hbelow k hlt
      rw [hc', hn']
      exact ⟨Function.update_of_ne hlast _ _, Function.update_of_ne hlast _ _⟩

theorem Same.trans {st₁ st₂ : DirStack} (h : Same st st₁) (h' : Same st₁ st₂) : Same st st₂ :=
  ⟨h.1.trans h'.1, fun k hk => ⟨(h.2 k hk).1.trans (h'.2 k (h.1 ▸ hk)).1,
    (h.2 k hk).2.trans (h'.2 k (h.1 ▸ hk)).2⟩⟩

theorem Same.symm {st₁ : DirStack} (h : Same st st₁) : Same st₁ st :=
  ⟨h.1.symm, fun k hk => ⟨(h.2 k (h.1.symm ▸ hk)).1.symm, (h.2 k (h.1.symm ▸ hk)).2.symm⟩⟩

/-- **When one `cd` ends where the path leads.** -/
theorem resolves_iff (hroom : st.dir_stack_index < 16) (hf : f.Ok) (ht : Denotes s st m f target) :
    (∃ st', Cd s st (pathArg m f y) st' ∧ Same st' target) ↔ Arrives s st m f y target := by
  obtain ⟨hstack, hnames, hle⟩ := base_up st m f
  have hbelow : ∀ k : Fin 16, k.val + 1 < target.dir_stack_index →
      target.dir_stack k = (base st m f).dir_stack k ∧
        target.dir_name_stack k = (base st m f).dir_name_stack k :=
    fun k hk => by
      rw [hstack, hnames]
      exact ht.below hk
  constructor
  · rintro ⟨st', hcd, hsame⟩
    rcases cd_inv hf hcd with ⟨i, hi, room, rfl⟩ | ⟨hnone, hst'⟩
    · obtain ⟨hindex, hn, hc⟩ := (same_push_iff room _ _ hbelow).mp hsame
      exact .enters hi hindex hn hc
    · exact .stays hnone (hst'.symm.trans hsame)
  · intro h
    obtain ⟨st', hcd⟩ := cd_exists s hroom m f y
    refine ⟨st', hcd, ?_⟩
    rcases cd_inv hf hcd with ⟨i, hi, room, rfl⟩ | ⟨hnone, hst'⟩
    · cases h with
      | stays hnone' => exact absurd hi (hnone' i)
      | enters hj hindex hn hc =>
        obtain rfl := hi.unique hj
        exact (same_push_iff room _ _ hbelow).mpr ⟨hindex, hn, hc⟩
    · cases h with
      | stays _ hbase => exact hst'.trans hbase
      | enters hj => exact absurd hj (hnone _)

end

/-- **When `cd` resolves a path**: nothing is found where the pops lead, and the path stands for that directory;
or what is found there is the folder that the path stands for, under the eight bytes from its name on. -/
theorem cd_resolves_iff (s : Fs) (st : DirStack) (hroom : st.dir_stack_index < 16) (m : ℕ) (f : Final)
    (hf : f.Ok) (y : Buffer) : (∃ target, Denotes s st m f target) ∧ ∀ target, Denotes s st m f target →
      ((∃ st', Cd s st (pathArg m f y) st' ∧ Same st' target) ↔ Arrives s st m f y target) :=
  ⟨exists_denotes s hroom m f, fun _ ht => resolves_iff hroom hf ht⟩

/-! ## The first folder -/

section

variable {s : Fs} {c : UInt32} {t : List UInt8}

theorem entered_one {table : FAT32DirectoryTable} {name : Bytes 8} (h : FoundFolder table name 1) :
    Entered table name 1 :=
  ⟨by decide, h, fun j hj hj0 => absurd (Fin.pos_of_ne_zero hj0) (by omega)⟩

theorem base_shellStack (ht : ¬ [46, 46] <+: t) : base (shellStack 0) 0 (.name t) = shellStack 0 :=
  (if_neg ht).trans (DirStack.up_zero _)

/-- A component that starts with `a` finds the folder `a`. -/
theorem looksUp_folder_a (htable : tableAt s 2 =
      Function.update (tableAt (boot 0) 2) 1 (folderEntry (small 2 97 0).name 0 c)) (ht : t.head? = some 97) :
    LooksUp s (shellStack 0) 0 (.name t) 0 1 := by
  obtain ⟨t, rfl⟩ : ∃ u, t = 97 :: u := List.head?_eq_some_iff.mp ht
  have hup : ¬ [46, 46] <+: (97 : UInt8) :: t := by
    rw [List.cons_prefix_cons]
    exact fun h => absurd h.1 (by decide)
  have hone : tableAt s 2 1 = folderEntry (small 2 97 0).name 0 c := by rw [htable, Function.update_self]
  refine ⟨fun hdot => absurd (List.cons.inj hdot).1 (by decide), fun h => absurd h hup, ?_⟩
  rw [base_shellStack hup]
  refine entered_one ⟨foundIn_request_name_iff.mpr (.inl ⟨1, by decide, ?_, fun j hj => ?_⟩), ?_⟩
  · show (tableAt s 2 1).name 1 = 0
    rw [hone]
    rfl
  · obtain rfl : j = 0 := by omega
    show (tableAt s 2 1).name 0 = 97
    rw [hone]
    rfl
  · show (tableAt s 2 1).attr = ATTR_SUBDIRECTORY ∧ (tableAt s 2 1).filesize = 0
    rw [hone]
    exact ⟨rfl, rfl⟩

end

theorem name_a_ok : (Final.name [97]).Ok := ⟨by decide, by decide, by decide, by decide, by decide⟩

theorem name_ab_ok : (Final.name [97, 98]).Ok := ⟨by decide, by decide, by decide, by decide, by decide⟩

/-- `cd a` enters the folder `a`. -/
theorem cd_resolves_folder_a : ∃ reply s target, Step (boot 0) (.write (small 2 97 0), reply) s ∧
    Denotes s (shellStack 0) 0 (.name [97]) target ∧ target.dir_stack_index = 2 ∧
    ∃ st', Cd s (shellStack 0) (pathArg 0 (.name [97]) 0) st' ∧ Same st' target := by
  obtain ⟨reply, s, c, hstep, -, ⟨hinv, -⟩, htable, -⟩ := boot_folder 0 97 (by decide)
  have hone : tableAt s 2 1 = folderEntry (small 2 97 0).name 0 c := by rw [htable, Function.update_self]
  have hroom : ((shellStack 0).up 0).dir_stack_index < 16 := by decide
  have hnamed : IsNamed (top s ((shellStack 0).up 0)) [97] 1 := by
    refine ⟨by decide, ?_, ?_, ?_⟩
    · show (tableAt s 2 1).InUse
      rw [hone]
      rfl
    · show (tableAt s 2 1).attr = ATTR_SUBDIRECTORY
      rw [hone]
      rfl
    · show (tableAt s 2 1).name = padded [97]
      rw [hone]
      exact (by decide : (small 2 97 0).name = padded [97])
  have hdenotes := Denotes.folder (m := 0) hroom hnamed
  obtain ⟨hindex, hn, hc⟩ := (same_push_iff hroom _ _ fun _ hk => hdenotes.below hk).mp (.refl _)
  have hname : dir_name (typed (Final.name [97]).text 0) = padded [97] := by decide
  refine ⟨reply, s, _, hstep, hdenotes, rfl,
    ((cd_resolves_iff s (shellStack 0) (by decide) 0 (.name [97]) name_a_ok 0).2
    _ hdenotes).mpr (.enters (looksUp_folder_a htable rfl) ?_ (hn.trans hname.symm) ?_)⟩
  · rw [base_shellStack (by decide)]
    exact hindex
  · rw [base_shellStack (by decide)]
    exact hc

/-- `cd ab` enters the folder `a`. -/
theorem cd_enters_shorter_name : ∃ reply s, Step (boot 0) (.write (small 2 97 0), reply) s ∧
    Denotes s (shellStack 0) 0 (.name [97, 98]) (shellStack 0) ∧
    ¬ ∃ st', Cd s (shellStack 0) (pathArg 0 (.name [97, 98]) 0) st' ∧ Same st' (shellStack 0) := by
  obtain ⟨reply, s, c, hstep, -, -, htable, -⟩ := boot_folder 0 97 (by decide)
  have hmissing : Denotes s (shellStack 0) 0 (.name [97, 98]) (shellStack 0) := by
    refine .missing fun i hi => ?_
    obtain ⟨hi0, hu, -, hname⟩ := hi
    have htop : top s ((shellStack 0).up 0) = tableAt s 2 := rfl
    rw [htop, htable] at hu hname
    by_cases hi1 : i = 1
    · rw [hi1, Function.update_self] at hname
      exact absurd (show (0 : UInt8) = 98 from congrFun hname 1) (by decide)
    · rw [Function.update_of_ne hi1, boot_slot 0 hi0] at hu
      exact not_inUse_zero hu
  refine ⟨reply, s, hstep, hmissing, fun h => ?_⟩
  rcases (resolves_iff (by decide) name_ab_ok hmissing).mp h with ⟨hnone, -⟩ | ⟨-, hindex, -⟩
  · exact hnone 1 (looksUp_folder_a htable rfl)
  · rw [base_shellStack (by decide)] at hindex
    exact absurd (show 1 + 1 = 1 from hindex) (by decide)

end KeropOS
