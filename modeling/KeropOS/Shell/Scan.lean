import KeropOS.Shell.Files
import KeropOS.Shell.Find
import Mathlib.Data.List.TakeWhile

/-!
# Names on the way of `find`

`find` takes the name of a directory from the table of its parent, and again from its own.

* `ProperName`, **`properNames_of_runOn`**: every entry has a name of one to eight characters;
* `text_of`, `string_at_table`: names as strings;
* `Way`, `infoOf`: a directory with the clusters above it, and what waits for it in the queue;
* **`sub_dir_info_eq`**: what is made of a subfolder; **`Way.path_names`**: the names on the way.
-/

namespace KeropOS

open Packed Linked Transition

/-! ## Names -/

/-- A name of one to eight characters. -/
structure ProperName (n : List UInt8) : Prop where
  pos : n ≠ []
  le : n.length ≤ 8
  no_zero : 0 ∉ n

/-- The call does not write, or it writes a proper name. -/
def ProperWrite : FAT32DirectoryTable × Call × Reply → Prop
  | (_, .write r, _) => ∃ n, ProperName n ∧ r.name = padded n
  | _ => True

/-- Every entry has a proper name. -/
def ProperNames (s : Fs) : Prop := ∀ p i, Held s p i → ∃ n, ProperName n ∧ (tableAt s p i).name = padded n

section

variable {s s' : Fs} {p c : ℕ} {i : Fin 64}

theorem properNames_stepOn {event : FAT32DirectoryTable × Call × Reply} (hs : Inv s) (hnamed : ProperNames s)
    (h : StepOn s event s') (hclean : CleanStack event) (hproper : ProperWrite event) : ProperNames s' := by
  intro p i hp
  rcases stepOn_asked hs h hclean with hu | ⟨r, P, k, e, cs, data, hr, ha, hask⟩ | ⟨P, k, l, hcl⟩
  · rw [hu.tableAt]
    exact hnamed p i (hu.symm.held hp)
  · rcases ha.held_cases hs hp with hp | ⟨rfl, rfl⟩
    · rw [ha.tableAt_held hs hp.live hp.inUse]
      exact hnamed p i hp
    · obtain ⟨newDir, call, reply⟩ := event
      obtain rfl : call = .write r := hr
      rw [ha.tableAt_new hs, hask.name]
      exact hproper
  · rw [hcl.tableAt_held hs hp]
    exact hnamed p i (hcl.held_cases hs hp).1

/-- **The entries of every run of proper writes are named.** -/
theorem properNames_of_runOn {d : Disk} {es : List (FAT32DirectoryTable × Call × Reply)}
    (h : Run StepOn (boot d) es s)
    (hclean : ∀ e ∈ es, CleanStack e) (hproper : ∀ e ∈ es, ProperWrite e) : ProperNames s := by
  refine (h.invariant_mem (fun s => Inv s ∧ ProperNames s) (fun s t e he hs hstep => ?_)
    ⟨inv_boot d, fun p i hp => absurd hp (boot_not_held d)⟩).2
  exact ⟨inv_stepOn s e t hs.1 hstep (hclean e he),
    properNames_stepOn hs.1 hs.2 hstep (hclean e he) (hproper e he)⟩

end

/-! ## Strings -/

/-- The characters of a name up to the first zero. -/
def text_of {k : ℕ} (b : Bytes k) : List UInt8 := (List.ofFn b).takeWhile (· ≠ 0)

section

variable {n mem behind : List UInt8} {k : ℕ}

theorem takeWhile_self (hzero : 0 ∉ n) : n.takeWhile (· ≠ 0) = n :=
  List.takeWhile_eq_self_iff.mpr fun _ ha => decide_eq_true fun h0 => hzero (h0 ▸ ha)

/-- The string at the front of an object. -/
theorem takeWhile_string (h : n ++ [0] <+: mem) (hzero : 0 ∉ n) : mem.takeWhile (· ≠ 0) = n := by
  obtain ⟨rest, rfl⟩ := h
  have hpos : ∀ a ∈ n, decide (a ≠ 0) = true := fun a ha => decide_eq_true fun h0 => hzero (h0 ▸ ha)
  rw [List.append_assoc, List.takeWhile_append_of_pos hpos]
  simp

theorem string_at_eq (h : n ++ [0] <+: mem) (hzero : 0 ∉ n) : string_at mem = .ok n := by
  rw [string_at, if_pos (h.subset (by simp)), takeWhile_string h hzero]

theorem padded_front (hle : n.length < k) : n ++ [0] <+: List.ofFn (padded n : Bytes k) := by
  rw [List.prefix_iff_getElem?]
  intro j hj
  rw [List.length_append, List.length_singleton] at hj
  rw [List.getElem?_ofFn, dif_pos (by omega), padded]
  rcases Nat.lt_succ_iff_lt_or_eq.mp hj with hlt | rfl
  · rw [List.getElem_append_left hlt, List.getD_eq_getElem _ _ hlt]
  · rw [List.getD_eq_default _ _ le_rfl, List.getElem_concat_length rfl]

theorem text_of_padded (hle : n.length ≤ k) (hzero : 0 ∉ n) : text_of (padded n : Bytes k) = n := by
  rcases hle.lt_or_eq with hlt | rfl
  · exact takeWhile_string (padded_front hlt) hzero
  · have hlist : List.ofFn (padded n : Bytes n.length) = n := by
      refine List.ext_getElem (by simp) fun j hj hj' => ?_
      rw [List.getElem_ofFn, padded, List.getD_eq_getElem _ _ hj']
    rw [text_of, hlist, takeWhile_self hzero]

/-- The string at the name of an entry, when a name of eight characters has no extension. -/
theorem string_at_table {t : FAT32DirectoryTable} {i : Fin 64} (hn : ProperName n)
    (hname : (t i).name = padded n) (hext : (t i).ext 0 = 0) : string_at (table_bytes t i) = .ok n := by
  refine string_at_eq (List.prefix_iff_getElem?.mpr fun j hj => ?_) hn.no_zero
  have hle := hn.le
  rw [List.length_append, List.length_singleton] at hj
  rcases Nat.lt_succ_iff_lt_or_eq.mp hj with hlt | rfl
  · rw [table_bytes_name t i ⟨j, by omega⟩, hname, padded, List.getElem_append_left hlt,
      List.getD_eq_getElem _ _ hlt]
  · rw [List.getElem_concat_length rfl]
    rcases hle.lt_or_eq with hlt | heq
    · rw [table_bytes_name t i ⟨n.length, hlt⟩, hname, padded, List.getD_eq_default _ _ le_rfl]
    · rw [heq, ← hext]
      exact table_bytes_ext t i 0

/-- A string that may go on behind its array. -/
theorem string_at_append (h : 0 ∉ n → behind.head? = some 0) :
    string_at (n ++ behind) = .ok (n.takeWhile (· ≠ 0)) := by
  by_cases hzero : 0 ∈ n
  · rw [string_at, if_pos (List.mem_append_left _ hzero), List.takeWhile_append, if_neg]
    intro hlen
    have hall := List.takeWhile_eq_self_iff.mp ((List.takeWhile_prefix _).eq_of_length hlen)
    exact absurd (hall 0 hzero) (by decide)
  · obtain ⟨rest, rfl⟩ := List.head?_eq_some_iff.mp (h hzero)
    rw [takeWhile_self hzero]
    exact string_at_eq ⟨rest, by rw [List.append_assoc, List.singleton_append]⟩ hzero

end

/-! ## Ways from the root -/

/-- The clusters on the way from the root to a directory, the last one first. -/
inductive Way (s : Fs) : List ℕ → Prop
  | root : Way s [2]
  | sub {p c : ℕ} {t : List ℕ} {i : Fin 64} : Way s (p :: t) → Child s p i c → Way s (c :: p :: t)

/-- What waits for the directory at the end of a way; `rest` is what `clusterpathing` holds behind it. -/
def infoOf (s : Fs) (rest : Fin 16 → UInt32) (t : List ℕ) : FileInfo where
  filename := text_of (tableAt s (t.headD 0) 0).name
  cluster_number := UInt32.ofNat (t.headD 0)
  parent_cluster_number := UInt32.ofNat (t.tail.headD 2)
  clusterpathing k := if k.val < t.length then UInt32.ofNat (t.reverse.getD k 0) else rest k
  neff := t.length - 1

/-- The names on a way, each with a slash behind it. -/
def wayText (s : Fs) (t : List ℕ) : List UInt8 :=
  t.reverse.flatMap fun p => text_of (tableAt s p 0).name ++ [47]

section

variable {s : Fs} {p c : ℕ} {t : List ℕ} {i : Fin 64} {rest : Fin 16 → UInt32}

theorem Way.live (h : Way s t) : ∀ p ∈ t, Live s p := by
  induction h with
  | root =>
    intro p hp
    rw [List.mem_singleton.mp hp]
    exact .root
  | sub _ hc ih =>
    intro p hp
    rcases List.mem_cons.mp hp with rfl | hp
    · exact hc.live
    · exact ih p hp

/-- A folder has its name in its own table. -/
theorem Child.self_name (hs : Inv s) (h : Child s p i c) :
    (tableAt s c 0).name = (tableAt s p i).name ∧ (tableAt s c 0).ext = 0 ∧ (tableAt s p i).ext = 0 := by
  rcases (h.sound hs).kind with hf | hd
  · exact absurd h.attr hf.attr
  · have hself := hd.self
    rw [h.cluster] at hself
    rw [hself]
    refine ⟨rfl, rfl, ?_⟩
    rw [hd.eq]
    rfl

/-- The tables on a way start with a proper name. -/
theorem Way.name (hs : Inv s) (hroot : RootSelf s) (hnamed : ProperNames s) (h : Way s t) :
    ∀ p ∈ t, ∃ n, ProperName n ∧ (tableAt s p 0).name = padded n ∧ (tableAt s p 0).ext = 0 := by
  induction h with
  | root =>
    intro p hp
    rw [List.mem_singleton.mp hp]
    unfold RootSelf at hroot
    rw [hroot]
    exact ⟨root_text, ⟨by decide, by decide, by decide⟩, by decide, rfl⟩
  | sub _ hc ih =>
    intro p hp
    rcases List.mem_cons.mp hp with rfl | hp
    · obtain ⟨hname, hext, -⟩ := hc.self_name hs
      obtain ⟨n, hn, heq⟩ := hnamed _ _ hc.held
      exact ⟨n, hn, hname.trans heq, hext⟩
    · exact ih p hp

theorem table_of_eq (hs : Inv s) (hlive : Live s p) : table_of s (UInt32.ofNat p) = tableAt s p := by
  rw [table_of, read_clusters_eq, clusterIndex_ofNat (hs.live_bounds hlive).2, tableAt]

theorem Way.string_at (hs : Inv s) (hroot : RootSelf s) (hnamed : ProperNames s) (h : Way s t) (hp : p ∈ t) :
    KeropOS.string_at (table_bytes (table_of s (UInt32.ofNat p)) 0) = .ok (text_of (tableAt s p 0).name) := by
  obtain ⟨n, hn, hname, hext⟩ := h.name hs hroot hnamed p hp
  rw [table_of_eq hs (h.live p hp), string_at_table hn hname (congrFun hext 0), hname,
    text_of_padded hn.le hn.no_zero]

/-- **What is made of a subfolder.** -/
theorem sub_dir_info_eq (hs : Inv s) (hnamed : ProperNames s) (h : Child s p i c)
    (hdepth : (c :: p :: t).length ≤ 16) :
    sub_dir_info (infoOf s rest (p :: t)) (tableAt s p) i = .ok (infoOf s rest (c :: p :: t)) := by
  obtain ⟨n, hn, hname⟩ := hnamed p i h.held
  obtain ⟨hself, -, hext⟩ := h.self_name hs
  have hlt : t.length + 1 < 16 := hdepth
  have hcluster : (tableAt s p i).cluster = UInt32.ofNat c := by rw [← h.cluster, UInt32.ofNat_toNat]
  have hle := hn.le
  rw [sub_dir_info, string_at_table hn hname (congrFun hext 0), ok_bind, custom_strcpy, if_pos (by omega),
    ok_bind]
  refine (dif_pos hlt).trans ?_
  simp only [infoOf, List.headD_cons, List.tail_cons, List.length_cons, Nat.add_sub_cancel, hself, hname,
    text_of_padded hn.le hn.no_zero, hcluster, Except.ok.injEq, FileInfo.mk.injEq, true_and, and_true]
  funext k
  by_cases hk : k = ⟨t.length + 1, hlt⟩
  · subst hk
    rw [Function.update_self, if_pos (Nat.lt_succ_self _), List.reverse_cons,
      List.getD_append_right _ _ _ _ (by simp)]
    simp
  · have hne : k.val ≠ t.length + 1 := fun he => hk (Fin.ext he)
    rw [Function.update_of_ne hk]
    by_cases hkt : k.val < t.length + 1
    · rw [if_pos hkt, if_pos (Nat.lt_succ_of_lt hkt), List.reverse_cons (a := c),
        List.getD_append _ _ _ _ (by simpa using hkt)]
    · rw [if_neg hkt, if_neg (by omega)]

/-- The loop over `get_i`, when every name is a string and there is room for all. -/
theorem path_names_eq {clusters : Fin 16 → UInt32} {w : ℕ → List UInt8} {ks : List ℕ} {path : List UInt8}
    (h : ∀ k ∈ ks, ∃ hk : k < 16, KeropOS.string_at (table_bytes (table_of s (clusters ⟨k, hk⟩)) 0) =
      .ok (w k))
    (hlen : (path ++ ks.flatMap fun k => w k ++ [47]).length < 160) :
    path_names s clusters ks path = .ok (path ++ ks.flatMap fun k => w k ++ [47]) := by
  induction ks generalizing path with
  | nil => rw [path_names, List.flatMap_nil, List.append_nil]
  | cons k ks ih =>
    obtain ⟨hk, hstring⟩ := h k (List.mem_cons_self ..)
    rw [List.flatMap_cons, ← List.append_assoc, ← List.append_assoc] at hlen ⊢
    have hlen' := hlen
    rw [List.length_append, List.length_append, List.length_singleton] at hlen'
    rw [path_names, dif_pos hk, hstring, ok_bind, custom_strcat, if_pos (by omega), ok_bind,
      custom_strcat, if_pos (by rw [List.length_append, List.length_singleton]; omega), ok_bind]
    exact ih (fun k hk => h k (List.mem_cons_of_mem _ hk)) hlen

theorem map_getD_range (l : List ℕ) : (List.range l.length).map (fun k => l.getD k 0) = l := by
  refine List.ext_getElem (by simp) fun k hk hk' => ?_
  rw [List.getElem_map, List.getElem_range, List.getD_eq_getElem _ _ hk']

theorem length_text_of_le {k : ℕ} (b : Bytes k) : (text_of b).length ≤ k :=
  ((List.takeWhile_prefix _).length_le).trans (by simp)

theorem length_wayText_le (s : Fs) (t : List ℕ) : (wayText s t).length ≤ 9 * t.length := by
  have hbound : ∀ l : List ℕ, (l.flatMap fun p => text_of (tableAt s p 0).name ++ [47]).length ≤
    9 * l.length := by
    intro l
    induction l with
    | nil => exact le_rfl
    | cons p l ih =>
      have := length_text_of_le (tableAt s p 0).name
      rw [List.flatMap_cons, List.length_append, List.length_append, List.length_singleton, List.length_cons]
      omega
  rw [wayText, ← (List.length_reverse : t.reverse.length = t.length)]
  exact hbound _

/-- **The names on the way**, in `path`. -/
theorem Way.path_names (rest : Fin 16 → UInt32) (hs : Inv s) (hroot : RootSelf s) (hnamed : ProperNames s)
    (h : Way s t) (hdepth : t.length ≤ 16) :
    KeropOS.path_names s (infoOf s rest t).clusterpathing (List.range t.length) [] = .ok (wayText s t) := by
  have htext : (List.range t.length).flatMap
      (fun k => text_of (tableAt s (t.reverse.getD k 0) 0).name ++ [47]) =
      wayText s t := by
    rw [wayText, ← (List.length_reverse : t.reverse.length = t.length)]
    conv_rhs => rw [← map_getD_range t.reverse, List.flatMap_map]
  have hlen := length_wayText_le s t
  have hnames : KeropOS.path_names s (infoOf s rest t).clusterpathing (List.range t.length) [] =
      .ok ([] ++ (List.range t.length).flatMap
        fun k => text_of (tableAt s (t.reverse.getD k 0) 0).name ++ [47]) := by
    refine path_names_eq (fun k hk => ?_) (by rw [htext, List.nil_append]; omega)
    have hk := List.mem_range.mp hk
    refine ⟨by omega, ?_⟩
    have hmem : t.reverse.getD k 0 ∈ t := by
      rw [List.getD_eq_getElem _ _ (by simpa using hk)]
      exact List.mem_reverse.mp (List.getElem_mem _)
    have hcluster : (infoOf s rest t).clusterpathing ⟨k, by omega⟩ = UInt32.ofNat (t.reverse.getD k 0) :=
      if_pos hk
    rw [hcluster]
    exact h.string_at hs hroot hnamed hmem
  rw [hnames, htext, List.nil_append]

end

end KeropOS
