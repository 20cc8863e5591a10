import KeropOS.Proc.Kill
import KeropOS.Shell.Find

/-!
# Comparing names

`strcmp` of `stdlib/string.c` tests for the end of the first string after it has advanced, and for the end of
the second one not at all.

* `strcmp_within`: `strcmp` between two objects, with the reads behind either; **`strcmp_of_within`**: it is
  the `strcmp` of the commands;
* `Compares`: what a comparison promises; `Separated`: the pairs on which `strcmp` keeps it;
  **`compares_iff`**;
* `Decides`: the lookups of `cd`, `find`, `cat`, `mv`, `cp` and the test of `kill` see two equal names.
-/

namespace KeropOS

open Packed

/-! ## The code -/

/-- `strcmp`; `s1` and `s2` are the objects from the first characters on, and a read behind either ends it. -/
def strcmp_within : (s1 s2 : List UInt8) → Except Trap ℤ
  | [], _ => .error .outOfBounds
  | _, [] => .error .outOfBounds
  | a :: s1, b :: s2 =>
    if a ≠ b then .ok (a.toInt8.toInt - b.toInt8.toInt)
    else
      match s1 with
      | [] => .error .outOfBounds
      | c :: s1 => if c = 0 then .ok 0 else strcmp_within (c :: s1) s2

/-! ## The property -/

/-- The first position where two strings differ, a zero being behind each. -/
def DifferAt (a b : List UInt8) (k : ℕ) : Prop := (∀ j < k, a.getD j 0 = b.getD j 0) ∧ a.getD k 0 ≠ b.getD k 0

/-- `strcmp` of two strings reads nothing behind their zeros, is 0 for equal ones only, and else has the sign
of the difference at the first position where they differ. -/
def Compares (a b : List UInt8) : Prop :=
  ∃ c, strcmp_within (a ++ [0]) (b ++ [0]) = .ok c ∧ (c = 0 ↔ a = b) ∧
    ∀ k, DifferAt a b k → c.sign = ((a.getD k 0).toInt8.toInt - (b.getD k 0).toInt8.toInt).sign

/-- The two strings are not both empty, and the first is empty or no proper front of the second. -/
def Separated (a b : List UInt8) : Prop := ¬ (a = [] ∧ b = []) ∧ ¬ (a ≠ [] ∧ a <+: b ∧ a ≠ b)

instance (a b : List UInt8) : Decidable (Separated a b) := by
  unfold Separated
  infer_instance

/-! ## What the loop computes -/

section

variable {a b c : UInt8} {s s1 s2 t rest : List UInt8} {x : ℤ} {m : Buffer}

theorem strcmp_within_ne (h : a ≠ b) :
    strcmp_within (a :: s1) (b :: s2) = .ok (a.toInt8.toInt - b.toInt8.toInt) := by
  unfold strcmp_within
  exact if_pos h

theorem strcmp_within_last : strcmp_within (a :: 0 :: s1) (a :: s2) = .ok 0 := by
  simp [strcmp_within]

theorem strcmp_within_next (hc : c ≠ 0) :
    strcmp_within (a :: c :: s1) (a :: s2) = strcmp_within (c :: s1) s2 := by
  simp [strcmp_within, hc]

/-- **The two models of `strcmp` agree**, with any memory behind the objects. -/
theorem strcmp_of_within (h : strcmp_within s1 s2 = .ok x) (hm : ∀ k (hk : k < s2.length), m k = s2[k]) :
    strcmp (s1 ++ rest) m = some x := by
  fun_induction strcmp_within s1 s2 generalizing m with
  | case1 => simp at h
  | case2 => simp at h
  | case3 a s1 b s2 hab =>
    have hb : m 0 = b := hm 0 (Nat.succ_pos _)
    rw [← Except.ok.inj h]
    cases hs : s1 ++ rest with
    | nil => simp [hs, strcmp, hb, hab]
    | cons d l => simp [hs, strcmp, hb, hab]
  | case4 => simp at h
  | case5 a b s2 hab s1 =>
    have hb : m 0 = b := hm 0 (Nat.succ_pos _)
    simp only [Except.ok.injEq] at h
    simp [strcmp, hb, not_not.mp hab, h]
  | case6 a b s2 hab c s1 hc ih =>
    have hb : m 0 = b := hm 0 (Nat.succ_pos _)
    have hrest : strcmp (c :: s1 ++ rest) (shift m 1) = some x := by
      apply ih h
      intro k hk
      have := hm (k + 1) (by simpa using hk)
      rw [shift, Nat.add_comm, this]
      rfl
    simpa [strcmp, hb, not_not.mp hab, hc] using hrest

/-- Two strings that are equal. -/
theorem strcmp_within_self (hs : 0 ∉ s) :
    strcmp_within (s ++ [0]) (s ++ [0]) = if s = [] then .error .outOfBounds else .ok 0 := by
  induction s with
  | nil => rfl
  | cons d s ih =>
    have hs' : 0 ∉ s := fun hmem => hs (List.mem_cons_of_mem _ hmem)
    rw [if_neg (List.cons_ne_nil _ _)]
    cases s with
    | nil => exact strcmp_within_last
    | cons e s =>
      have he : e ≠ 0 := fun he => hs' (he ▸ List.mem_cons_self ..)
      rw [List.cons_append, List.cons_append, strcmp_within_next he, ← List.cons_append, ih hs',
        if_neg (List.cons_ne_nil _ _)]

/-- The first difference decides, but when the first string ends there. -/
theorem strcmp_within_differ {k : ℕ} (hs : 0 ∉ s) (ht : 0 ∉ t) (h : DifferAt s t k) :
    strcmp_within (s ++ [0]) (t ++ [0]) = .ok (if k ≠ 0 ∧ s.getD k 0 = 0 then 0
      else (s.getD k 0).toInt8.toInt - (t.getD k 0).toInt8.toInt) := by
  induction k generalizing s t with
  | zero =>
    have h0 := h.2
    cases s with
    | nil =>
      cases t with
      | nil => exact absurd rfl h0
      | cons e t => simpa using strcmp_within_ne h0
    | cons d s =>
      cases t with
      | nil => simpa using strcmp_within_ne h0
      | cons e t => simpa using strcmp_within_ne h0
  | succ k ih =>
    have h0 := h.1 0 (Nat.succ_pos _)
    cases s with
    | nil =>
      cases t with
      | nil => exact absurd rfl h.2
      | cons e t => exact absurd (by simpa using h0) fun he : 0 = e => ht (he ▸ List.mem_cons_self ..)
    | cons d s =>
      cases t with
      | nil => exact absurd (by simpa using h0) fun hd : d = 0 => hs (hd ▸ List.mem_cons_self ..)
      | cons e t =>
        obtain rfl : d = e := by simpa using h0
        have hs' : 0 ∉ s := fun hmem => hs (List.mem_cons_of_mem _ hmem)
        have ht' : 0 ∉ t := fun hmem => ht (List.mem_cons_of_mem _ hmem)
        have hnext : DifferAt s t k := ⟨fun j hj => by simpa using h.1 (j + 1) (by omega), by simpa using h.2⟩
        cases s with
        | nil => simpa using strcmp_within_last
        | cons c s =>
          have hc : c ≠ 0 := fun hc => hs' (hc ▸ List.mem_cons_self ..)
          rw [List.cons_append, List.cons_append, List.cons_append, strcmp_within_next hc, ← List.cons_append,
            ih hs' ht' hnext]
          cases k with
          | zero => simp [hc]
          | succ k => simp

theorem differAt_unique {k l : ℕ} (hk : DifferAt s t k) (hl : DifferAt s t l) : k = l := by
  rcases lt_trichotomy k l with h | h | h
  · exact absurd (hl.1 k h) hk.2
  · exact h
  · exact absurd (hk.1 l h) hl.2

/-- A string has ended where it reads as zero. -/
theorem length_le_of_getD {n : ℕ} (hs : 0 ∉ s) (h : s.getD n 0 = 0) : s.length ≤ n := by
  by_contra hlt
  rw [List.getD_eq_getElem _ _ (not_le.mp hlt)] at h
  exact hs (h ▸ List.getElem_mem _)

/-- Two strings are equal, or there is a first position where they differ. -/
theorem differAt_of_ne (hs : 0 ∉ s) (ht : 0 ∉ t) (h : s ≠ t) : ∃ k, DifferAt s t k := by
  have hdiffer : ∃ k, s.getD k 0 ≠ t.getD k 0 := by
    by_contra hall
    push Not at hall
    apply h
    have hle : s.length ≤ t.length :=
      length_le_of_getD hs ((hall t.length).trans (List.getD_eq_default _ _ le_rfl))
    have hge : t.length ≤ s.length :=
      length_le_of_getD ht ((hall s.length).symm.trans (List.getD_eq_default _ _ le_rfl))
    refine List.ext_getElem (le_antisymm hle hge) fun k h1 h2 => ?_
    have := hall k
    rwa [List.getD_eq_getElem _ _ h1, List.getD_eq_getElem _ _ h2] at this
  classical
  exact ⟨Nat.find hdiffer, fun j hj => not_not.mp (Nat.find_min hdiffer hj), Nat.find_spec hdiffer⟩

/-- The first string ends where it first differs when it is a proper front of the second. -/
theorem ends_at_difference {k : ℕ} (hs : 0 ∉ s) (h : DifferAt s t k) : s.getD k 0 = 0 ↔ s <+: t ∧ s ≠ t := by
  have hne : s ≠ t := fun he => h.2 (by rw [he])
  rw [and_iff_left hne]
  constructor
  · intro h0
    have hk := length_le_of_getD hs h0
    rw [List.prefix_iff_getElem]
    have hlen : s.length ≤ t.length := by
      by_contra hlt
      have := (h.1 t.length (by omega)).trans (List.getD_eq_default _ _ le_rfl)
      exact hlt (length_le_of_getD hs this)
    refine ⟨hlen, fun j hj => ?_⟩
    have := h.1 j (by omega)
    rwa [List.getD_eq_getElem _ _ hj, List.getD_eq_getElem _ _ (by omega)] at this
  · rintro ⟨r, rfl⟩
    by_cases hk : k < s.length
    · refine absurd ?_ h.2
      rw [List.getD_append _ _ _ _ hk]
    · exact List.getD_eq_default _ _ (not_lt.mp hk)

end

/-! ## Two strings -/

section

variable {a b : List UInt8}

/-- **When `strcmp` keeps what a comparison promises.** -/
theorem compares_iff (ha : 0 ∉ a) (hb : 0 ∉ b) : Compares a b ↔ Separated a b := by
  unfold Compares Separated
  by_cases he : a = b
  · subst he
    rw [strcmp_within_self ha]
    by_cases hnil : a = []
    · simp [hnil]
    · have hnone : ∀ k, ¬ DifferAt a a k := fun k h => h.2 rfl
      simp [hnil, hnone]
  · obtain ⟨k, hk⟩ := differAt_of_ne ha hb he
    have hnil : ¬ (a = [] ∧ b = []) := fun h => he (h.1.trans h.2.symm)
    have hfront : (k ≠ 0 ∧ a.getD k 0 = 0) ↔ a ≠ [] ∧ a <+: b ∧ a ≠ b := by
      rw [ends_at_difference ha hk]
      refine and_congr_left fun h => not_congr ⟨?_, ?_⟩
      · rintro rfl
        by_contra hne
        obtain ⟨d, a', rfl⟩ := List.exists_cons_of_ne_nil hne
        obtain ⟨r, rfl⟩ := h.1
        exact hk.2 rfl
      · rintro rfl
        by_contra hpos
        have := hk.1 0 (by omega)
        obtain ⟨e, b', rfl⟩ := List.exists_cons_of_ne_nil (Ne.symm h.2)
        exact hb (by simp at this; simp [← this])
    rw [strcmp_within_differ ha hb hk, and_iff_right hnil, ← hfront]
    have hdiff : (a.getD k 0).toInt8.toInt - (b.getD k 0).toInt8.toInt ≠ 0 :=
      fun h => hk.2 (char_sub_eq_zero.mp h)
    split_ifs with h
    · refine iff_of_false ?_ (not_not.mpr h)
      rintro ⟨c, hc, hzero, -⟩
      exact he (hzero.mp (Except.ok.inj hc).symm)
    · refine iff_of_true ⟨_, rfl, iff_of_false hdiff he, fun l hl => ?_⟩ h
      rw [differAt_unique hk hl]

/-- For the memory from two strings on, whatever is behind them, `strcmp` tells whether they are equal. -/
theorem strcmp_strings {s1 : List UInt8} {m : Buffer} (h : Separated a b) (ha : 0 ∉ a) (hs1 : a ++ [0] <+: s1)
    (hm : IsString m b) : ∃ c, strcmp s1 m = some c ∧ (c = 0 ↔ a = b) := by
  obtain ⟨hchars, hb, hend⟩ := hm
  obtain ⟨rest, rfl⟩ := hs1
  obtain ⟨c, hc, hzero, -⟩ := (compares_iff ha hb).mpr h
  refine ⟨c, strcmp_of_within hc fun k hk => ?_, hzero⟩
  by_cases hlt : k < b.length
  · rw [List.getElem_append_left hlt]
    exact hchars k hlt
  · obtain rfl : k = b.length := by simp at hk; omega
    simpa using hend

end

/-! ## The lookups -/

/-- At a table entry named `a`, the lookups for the name `b` of `cd`, `find`, `cat`, `mv` and `cp` do what
they do for equal names if `a` is `b`, and what they do for others if not; so does `kill` for a process named
`a` when `b` is `"shell"`. -/
structure Decides (a b : List UInt8) : Prop where
  cd : ∀ (t : FAT32DirectoryTable) (i : Fin 64) (slots : List (Fin 64)) (name : Bytes 8),
    a ++ [0] <+: table_bytes t i → IsString (request_name name) b → find_folder t name (i :: slots) =
      if a = b ∧ (t i).attr = ATTR_SUBDIRECTORY ∧ (t i).filesize = 0 then .ok (some i)
      else find_folder t name slots
  find : ∀ (v : FindLocals) (s : Fs) (info : FileInfo) (t : FAT32DirectoryTable) (i : Fin 64)
    (st : FindState),
    a ++ [0] <+: table_bytes t i → find_entry v s b info t i st = do
      let st ← enqueue_folder info t i st
      if a = b then report v s b info t i st else .ok st
  cat : ∀ (t : FAT32DirectoryTable) (i : Fin 64) (slots : List (Fin 64)) (name : Buffer),
    a ++ [0] <+: table_bytes t i → IsString name b → find_text t name (i :: slots) =
      if a = b ∧ strcmp txt (ext_bytes t i) = some 0 then .ok (some i) else find_text t name slots
  mv : ∀ (t : FAT32DirectoryTable) (i : Fin 64) (slots : List (Fin 64)) (name : Buffer) (cluster : UInt32)
    (v : Saved) (disk : Disk),
    a ++ [0] <+: table_bytes t i → IsString name b → take_sources name cluster (i :: slots) t v disk =
      if a = b then
        take_sources name cluster slots (Function.update t i (t i).cleared) (t i).saved
          (write_clusters disk (tableLayout.encode (Function.update t i (t i).cleared)) cluster)
      else take_sources name cluster slots t v disk
  cp : ∀ (t : FAT32DirectoryTable) (i : Fin 64) (slots : List (Fin 64)) (name : Buffer) (filesize : UInt32),
    a ++ [0] <+: table_bytes t i → IsString name b → find_filesize t name (i :: slots) filesize =
      find_filesize t name slots (if a = b then (t i).filesize else filesize)
  kill : b ++ [0] = shell_name → ∀ (L : Linkage) (s : Kernel) (arg : Buffer) (p : Fin 16),
    (piddd arg).toInt8.toInt = p → a ++ [0] <+: List.ofFn (s.process_list p).name →
      syscall_kill L s arg =
        if a = b then .ok ("Proses Shell tidak Diizinkan untuk Dihapus!\n", s)
        else
          match process_destroy L s (UInt32.ofNat p) with
          | .error t => .error t
          | .ok (retcode, s) =>
            .ok (if retcode then "Proses Berhasil dihapus!\n" else "Proses Tidak Berhasil dihapus!\n", s)

section

variable {a b : List UInt8}

theorem isString_cstring (hb : 0 ∉ b) : IsString (cstring b) b := by
  refine ⟨fun k hk => ?_, hb, ?_⟩
  · exact List.getD_eq_getElem _ _ hk
  · exact List.getD_eq_default _ _ le_rfl

theorem decides_of_separated (ha : 0 ∉ a) (hb : 0 ∉ b) (h : Separated a b) : Decides a b where
  cd t i slots name hname hb := by
    obtain ⟨c, hc, hzero⟩ := strcmp_strings h ha hname hb
    simp only [find_folder, hc, hzero]
  find v s info t i st hname := by
    obtain ⟨c, hc, hzero⟩ := strcmp_strings h ha hname (isString_cstring hb)
    simp only [find_entry, hc, hzero]
  cat t i slots name hname hb := by
    obtain ⟨c, hc, hzero⟩ := strcmp_strings h ha hname hb
    simp only [find_text, hc, hzero]
  mv t i slots name cluster v disk hname hb := by
    obtain ⟨c, hc, hzero⟩ := strcmp_strings h ha hname hb
    simp only [take_sources, hc, hzero]
  cp t i slots name filesize hname hb := by
    obtain ⟨c, hc, hzero⟩ := strcmp_strings h ha hname hb
    simp only [find_filesize, hc, hzero]
  kill hshell L s arg p hp hname := by
    have hstring : IsString (cstring shell_name) b := by
      rw [← hshell]
      refine ⟨fun k hk => ?_, hb, ?_⟩
      · rw [cstring, List.getD_append _ _ _ _ hk, List.getD_eq_getElem _ _ hk]
      · simp [cstring]
    obtain ⟨c, hc, hzero⟩ := strcmp_strings h ha hname hstring
    have hspared : Spared s p ↔ a = b := by
      rw [Spared, hc, Option.some.injEq, hzero]
    rcases syscall_kill_eq (piddd_eq_iff.mp hp) L s with ⟨hs, hcall⟩ | ⟨hs, hcall⟩
    · rw [hcall, if_pos (hspared.mp hs)]
    · exact hcall.trans (if_neg fun he => hs (hspared.mpr he)).symm

/-- **When names are compared as they should be**, and the lookups find the names that are meant. -/
theorem strcmp_equality_iff (a b : List UInt8) (ha : 0 ∉ a) (hb : 0 ∉ b) :
    Compares a b ∧ Decides a b ↔ Separated a b := by
  rw [← compares_iff ha hb]
  exact and_iff_left_of_imp fun h => decides_of_separated ha hb ((compares_iff ha hb).mp h)

/-- `"cat"` and `"car"`. -/
theorem strcmp_equality_differing :
    Compares [99, 97, 116] [99, 97, 114] ∧ Decides [99, 97, 116] [99, 97, 114] :=
  (strcmp_equality_iff _ _ (by decide) (by decide)).mpr (by decide)

/-- `"a"` counts as equal to `"ab"`. -/
theorem strcmp_front : strcmp_within ([97] ++ [0]) ([97, 98] ++ [0]) = .ok 0 ∧
    ¬ Compares [97] [97, 98] := by
  refine ⟨rfl, fun h => ?_⟩
  obtain ⟨c, hc, hzero, -⟩ := h
  exact absurd (hzero.mp (Except.ok.inj hc).symm) (by decide)

end

end KeropOS
