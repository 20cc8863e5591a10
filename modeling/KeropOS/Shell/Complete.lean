import KeropOS.Shell.Search
import Mathlib.Data.Set.Card

/-!
# When `find` is complete

Slot 1 of the root is passed over, a name passes for every target that it starts, and the queue drops what it
has no room for.

* `Targets`; `DirNames`, `Reports`: the line for an entry; `Complete`: what `find` is to show;
* `SameLines`, **`complete_iff`**: a walk that comes to its end is complete when its lines are the targets';
* `Searchable`, **`complete_of_searchable`**: a condition on the tree that is enough;
* **`complete_for_all_iff`**: it does so for every target only in a tree without entries;
* **`find_complete`**: all of it.
-/

namespace KeropOS

open Packed Linked Transition Rings LevelOrder

/-! ## What is to be shown -/

/-- The entry is in use, and its name is the target. -/
def IsTarget (target : List UInt8) (e : FAT32DirectoryEntry) : Prop :=
  e.InUse ∧ target.length ≤ 8 ∧ e.name = padded target

/-- The entries whose name is the target, at any depth. -/
def Targets (s : Fs) (target : List UInt8) : Set (ℕ × Fin 64) :=
  {x | Held s x.1 x.2 ∧ IsTarget target (tableAt s x.1 x.2)}

/-- The names of the directories from `ROOT` down to one. -/
inductive DirNames (s : Fs) : List (List UInt8) → ℕ → Prop
  | root : DirNames s [root_text] 2
  | sub {ns : List (List UInt8)} {p c : ℕ} {i : Fin 64} : DirNames s ns p → Child s p i c →
      DirNames s (ns ++ [text_of (tableAt s p i).name]) c

/-- The line for an entry shows the names of the directories down to it, and its own. -/
def Reports (s : Fs) (target : List UInt8) (x : ℕ × Fin 64) (shown : List Shown) : Prop :=
  ∃ ns, DirNames s ns x.1 ∧ shown = line (ns.flatMap (· ++ [47])) target (tableAt s x.1 x.2)

/-- `find` returns; it shows one line for each target and no others, and the message when there is none. -/
def Complete (v : FindLocals) (s : Fs) (target : List UInt8) : Prop :=
  ∃ fuel shown, bfs_find fuel v s target = .ok shown ∧ ∃ found lines, found.Nodup ∧
    (∀ x, x ∈ found ↔ x ∈ Targets s target) ∧ List.Forall₂ (Reports s target) found lines ∧
    shown = lines.flatten ++ if found = [] then [notFound] else []

/-- **The condition.** -/
structure Searchable (v : FindLocals) (s : Fs) (target : List UInt8) : Prop where
  /-- No directory that is looked at is sixteen folders deep. -/
  depth : ∀ t, Scanned s t → t.length ≤ 16
  /-- With a directory, those behind it on its level and the folders of those before it are at most twenty. -/
  room : Roomy (subways s) [[2]] 20
  /-- What is looked at and passes are the targets. -/
  exact : Passing s target = Targets s target
  /-- `path` is empty at first. -/
  path : (Targets s target).Nonempty → v.path 0 = 0
  /-- A zero is behind an extension of three characters. -/
  ext : ∀ x ∈ Targets s target, (tableAt s x.1 x.2).attr ≠ ATTR_SUBDIRECTORY →
    0 ∉ List.ofFn (tableAt s x.1 x.2).ext → (v.behind_ext (UInt32.ofNat x.1) x.2).head? = some 0
  /-- The targets are not 256, nor a multiple of it. -/
  count : 256 ∣ (Targets s target).ncard → Targets s target = ∅

section

variable {v : FindLocals} {s : Fs} {target : List UInt8} {p : ℕ} {t : List ℕ} {x : ℕ × Fin 64}

theorem ncard_of_list {S : Set (ℕ × Fin 64)} {l : List (ℕ × Fin 64)} (hnodup : l.Nodup)
    (hmem : ∀ x, x ∈ l ↔ x ∈ S) :
    S.ncard = l.length := by
  have hset : S = l.toFinset := by
    ext x
    rw [← hmem, Finset.mem_coe, List.mem_toFinset]
  rw [hset, Set.ncard_coe_finset, List.toFinset_card_of_nodup hnodup]

theorem Searchable.walkable (h : Searchable v s target) : Walkable v s target where
  depth := h.depth
  room := h.room
  path := h.exact ▸ h.path
  fits p t i hscan hpass := by
    have hle := (h.exact ▸ hpass : (p, i) ∈ Targets s target).2.2.1
    have hdepth := h.depth _ hscan
    have hway := length_wayText_le s (p :: t)
    omega
  ext := h.exact ▸ h.ext

/-- The names on a way are those of the directories. -/
theorem Way.dirNames (hs : Inv s) (hroot : RootSelf s) (h : Way s t) : ∀ p u, t = p :: u →
    DirNames s ((p :: u).reverse.map fun q => text_of (tableAt s q 0).name) p := by
  induction h with
  | root =>
    rintro p u ⟨⟩
    have htext : text_of (tableAt s 2 0).name = root_text := by
      unfold RootSelf at hroot
      rw [hroot]
      decide
    rw [List.reverse_singleton, List.map_singleton, htext]
    exact .root
  | sub _ hc ih =>
    rintro c u ⟨⟩
    rw [List.reverse_cons, List.map_append, List.map_singleton, (hc.self_name hs).1]
    exact (ih _ _ rfl).sub hc

/-- The line for an entry that the walk finds. -/
theorem reports_hitLine (hs : Inv s) (hroot : RootSelf s) (hscan : Scanned s (p :: t)) (i : Fin 64) :
    Reports s target (p, i) (hitLine s target (p :: t, i)) := by
  refine ⟨_, hscan.way.dirNames hs hroot p t rfl, ?_⟩
  rw [hitLine, wayText, List.headD_cons, List.flatMap_map]

theorem ncard_passing (hs : Inv s) (h : Walkable v s target) :
    (Passing s target).ncard = (allHits s target).length := by
  rw [ncard_of_list (nodup_places hs h) (mem_places h), List.length_map]

theorem length_line (way target : List UInt8) (e : FAT32DirectoryEntry) : (line way target e).length = 2 := by
  unfold line
  split_ifs <;> rfl

theorem map_length_lines {found : List (ℕ × Fin 64)} {lines : List (List Shown)}
    (h : List.Forall₂ (Reports s target) found lines) :
    lines.map List.length = List.replicate found.length 2 := by
  induction h with
  | nil => rfl
  | cons hline _ ih =>
    obtain ⟨ns, -, rfl⟩ := hline
    rw [List.map_cons, length_line, ih]
    rfl

theorem length_flatten_lines {found : List (ℕ × Fin 64)} {lines : List (List Shown)}
    (h : List.Forall₂ (Reports s target) found lines) : lines.flatten.length = 2 * found.length := by
  rw [List.length_flatten, map_length_lines h, List.sum_replicate, smul_eq_mul, Nat.mul_comm]

/-- **The walk shows the line of each entry it finds.** -/
theorem reports_allHits (hs : Inv s) (hroot : RootSelf s) (h : Walkable v s target) :
    List.Forall₂ (Reports s target) ((allHits s target).map place)
    ((allHits s target).map (hitLine s target)) := by
  rw [List.forall₂_map_left_iff, List.forall₂_map_right_iff, List.forall₂_same]
  intro x hx
  obtain ⟨p, t, hway, hscan, -⟩ := exists_of_mem_allHits h hx
  obtain ⟨y, i⟩ := x
  obtain rfl : y = p :: t := hway
  exact reports_hitLine hs hroot hscan i

/-! ## The lines of the targets -/

/-- A directory has one path. -/
theorem DirNames.unique (hs : Inv s) {ns ns' : List (List UInt8)} (h : DirNames s ns p)
    (h' : DirNames s ns' p) : ns = ns' := by
  induction h generalizing ns' with
  | root =>
    cases h' with
    | root => rfl
    | sub _ hc' =>
      have := hc'.three_le hs
      omega
  | sub _ hc ih =>
    cases h' with
    | root =>
      have := hc.three_le hs
      omega
    | sub h' hc' =>
      obtain ⟨rfl, rfl⟩ := hc.unique hc' hs
      rw [ih h']

theorem exists_dirNames (h : Live s p) : ∃ ns, DirNames s ns p := by
  induction h with
  | root => exact ⟨_, .root⟩
  | sub hp hi hu hattr ih =>
    obtain ⟨ns, hns⟩ := ih
    exact ⟨_, hns.sub ⟨⟨hp, hi, hu⟩, hattr, rfl⟩⟩

theorem Reports.unique (hs : Inv s) {shown shown' : List Shown} (h : Reports s target x shown)
    (h' : Reports s target x shown') : shown = shown' := by
  obtain ⟨ns, hns, rfl⟩ := h
  obtain ⟨ns', hns', rfl⟩ := h'
  rw [hns.unique hs hns']

theorem exists_reports (h : Held s x.1 x.2) : ∃ shown, Reports s target x shown := by
  obtain ⟨ns, hns⟩ := exists_dirNames h.live
  exact ⟨_, ns, hns, rfl⟩

/-- The lines of some entries, counted by their text. -/
theorem count_lines (hs : Inv s) {S : Set (ℕ × Fin 64)} {found : List (ℕ × Fin 64)}
    {lines : List (List Shown)} (hnodup : found.Nodup) (hmem : ∀ x, x ∈ found ↔ x ∈ S)
    (hlines : List.Forall₂ (Reports s target) found lines) (shown : List Shown) :
    {x ∈ S | Reports s target x shown}.ncard = lines.count shown := by
  classical
  have hfilter : ∀ x, x ∈ found.filter (fun x => decide (Reports s target x shown)) ↔
      x ∈ {x ∈ S | Reports s target x shown} := fun x => by
    rw [List.mem_filter, hmem, decide_eq_true_eq, Set.mem_ofPred_eq]
  rw [ncard_of_list (hnodup.filter _) hfilter]
  clear hnodup hmem hfilter
  induction hlines with
  | nil => rfl
  | @cons x line _ _ hline _ ih =>
    have hiff : Reports s target x shown ↔ line = shown :=
      ⟨fun h => hline.unique hs h, fun h => h ▸ hline⟩
    rw [List.filter_cons, List.count_cons]
    simp only [hiff, decide_eq_true_eq, beq_iff_eq]
    split_ifs
    · rw [List.length_cons, ih]
    · exact ih

theorem finite_targets (hs : Inv s) : (Targets s target).Finite := by
  refine ((Set.finite_Iio 512).prod Set.finite_univ).subset fun x hx => ?_
  exact ⟨(hs.live_bounds hx.1.live).2, Set.mem_univ _⟩

/-- Of the entries that pass and of the targets, as many have the same line. -/
def SameLines (s : Fs) (target : List UInt8) : Prop := ∀ shown,
  {x ∈ Passing s target | Reports s target x shown}.ncard =
    {x ∈ Targets s target | Reports s target x shown}.ncard

/-- What is shown by a walk that comes to its end and is complete. -/
theorem Complete.lines (hs : Inv s) (hroot : RootSelf s) (hnamed : ProperNames s)
    (hwalk : Walkable v s target) (h : Complete v s target) : ∃ found : List (ℕ × Fin 64), found.Nodup ∧
      (∀ x, x ∈ found ↔ x ∈ Targets s target) ∧
      List.Forall₂ (Reports s target) found ((allHits s target).map (hitLine s target)) ∧
      (256 ∣ (allHits s target).length ↔ found = []) := by
  obtain ⟨fuel, hfind⟩ := bfs_find_eq hs hroot hnamed hwalk
  obtain ⟨fuel', shown, hfind', found, lines, hnodup, hmem, hlines, rfl⟩ := h
  have hshown := bfs_find_unique hfind hfind'
  have hhits := reports_allHits hs hroot hwalk
  rw [List.flatMap_def] at hshown
  have hlen := congrArg List.length hshown
  rw [List.length_append, List.length_append, length_flatten_lines hhits, length_flatten_lines hlines,
    List.length_map] at hlen
  have hmessage : ∀ (c : Prop) [Decidable c], (if c then [notFound] else []).length = if c then 1 else 0 := by
    intro c _
    split_ifs <;> rfl
  rw [hmessage, hmessage] at hlen
  have heq : (allHits s target).length = found.length := by
    split_ifs at hlen <;> omega
  have hiff : 256 ∣ (allHits s target).length ↔ found = [] := by
    split_ifs at hlen with h1 h2 h2
    · exact iff_of_true h1 h2
    · omega
    · omega
    · exact iff_of_false h1 h2
  refine ⟨found, hnodup, hmem, ?_, hiff⟩
  have hflatten : ((allHits s target).map (hitLine s target)).flatten = lines.flatten := by
    refine (List.append_inj hshown ?_).1
    rw [length_flatten_lines hhits, length_flatten_lines hlines, List.length_map, heq]
  have hsame : (allHits s target).map (hitLine s target) = lines := by
    rw [List.eq_iff_flatten_eq, map_length_lines hhits, map_length_lines hlines, List.length_map, heq]
    exact ⟨hflatten, rfl⟩
  rwa [hsame]

theorem Complete.ncard_eq (hs : Inv s) (hroot : RootSelf s) (hnamed : ProperNames s)
    (hwalk : Walkable v s target) (h : Complete v s target) :
    (Passing s target).ncard = (Targets s target).ncard := by
  obtain ⟨found, hnodup, hmem, hlines, -⟩ := h.lines hs hroot hnamed hwalk
  rw [ncard_passing hs hwalk, ncard_of_list hnodup hmem, hlines.length_eq, List.length_map]

/-- The targets in the order of the lines shown, when these are theirs. -/
theorem SameLines.exists_found (hs : Inv s) (hroot : RootSelf s) (hwalk : Walkable v s target)
    (h : SameLines s target) : ∃ found : List (ℕ × Fin 64), found.Nodup ∧
      (∀ x, x ∈ found ↔ x ∈ Targets s target) ∧
      List.Forall₂ (Reports s target) found ((allHits s target).map (hitLine s target)) := by
  have hfinite : (Targets s target).Finite := finite_targets hs
  have hmem : ∀ x, x ∈ hfinite.toFinset.toList ↔ x ∈ Targets s target := fun x => by
    rw [Finset.mem_toList, Set.Finite.mem_toFinset]
  have hnodup : hfinite.toFinset.toList.Nodup := Finset.nodup_toList _
  generalize hfinite.toFinset.toList = targets at hmem hnodup
  have hreports : ∀ x ∈ Targets s target, ∃ shown, Reports s target x shown := fun x hx => exists_reports hx.1
  choose! lineAt hlineAt using hreports
  have hlines : List.Forall₂ (Reports s target) targets (targets.map lineAt) := by
    rw [List.forall₂_map_right_iff, List.forall₂_same]
    exact fun x hx => hlineAt x ((hmem x).mp hx)
  have hperm : ((allHits s target).map (hitLine s target)).Perm (targets.map lineAt) := by
    rw [List.perm_iff_count]
    intro shown
    rw [← count_lines hs (nodup_places hs hwalk) (mem_places hwalk) (reports_allHits hs hroot hwalk), h,
      count_lines hs hnodup hmem hlines]
  obtain ⟨found, hfound, htargets⟩ := List.perm_comp_forall₂ hperm hlines.flip
  exact ⟨found, htargets.nodup_iff.mpr hnodup, fun x => htargets.mem_iff.trans (hmem x), hfound.flip⟩

/-- **When a walk that comes to its end is complete**: the lines are those of the targets, whose number is no
multiple of 256. -/
theorem complete_iff (hs : Inv s) (hroot : RootSelf s) (hnamed : ProperNames s)
    (hwalk : Walkable v s target) :
    Complete v s target ↔ SameLines s target ∧ (256 ∣ (Targets s target).ncard → Targets s target = ∅) := by
  constructor
  · intro h
    obtain ⟨found, hnodup, hmem, hlines, hnone⟩ := h.lines hs hroot hnamed hwalk
    refine ⟨fun shown => ?_, fun hdvd => ?_⟩
    · rw [count_lines hs (nodup_places hs hwalk) (mem_places hwalk) (reports_allHits hs hroot hwalk),
        count_lines hs hnodup hmem hlines]
    · rw [ncard_of_list hnodup hmem, hlines.length_eq, List.length_map] at hdvd
      refine Set.eq_empty_iff_forall_notMem.mpr fun x hx => ?_
      rw [← hmem, hnone.mp hdvd] at hx
      exact List.not_mem_nil hx
  · rintro ⟨hsame, hcount⟩
    obtain ⟨found, hnodup, hmem, hlines⟩ := hsame.exists_found hs hroot hwalk
    obtain ⟨fuel, hfind⟩ := bfs_find_eq hs hroot hnamed hwalk
    have hnone : 256 ∣ (allHits s target).length ↔ found = [] := by
      have hlength := hlines.length_eq
      rw [List.length_map] at hlength
      rw [← hlength]
      constructor
      · intro hdvd
        rw [← ncard_of_list hnodup hmem] at hdvd
        refine List.eq_nil_iff_forall_not_mem.mpr fun x hx => ?_
        rw [hmem, hcount hdvd] at hx
        exact hx
      · rintro rfl
        exact dvd_zero _
    refine ⟨fuel, _, hfind, found, _, hnodup, hmem, hlines, ?_⟩
    rw [List.flatMap_def]
    simp only [hnone]

/-- A walk that finds what it is to find. -/
theorem complete_of_searchable (hs : Inv s) (hroot : RootSelf s) (hnamed : ProperNames s)
    (h : Searchable v s target) : Complete v s target := by
  rw [complete_iff hs hroot hnamed h.walkable]
  exact ⟨fun shown => by rw [h.exact], h.count⟩

end

/-! ## A root without folders -/

section

variable {v : FindLocals} {s : Fs} {target : List UInt8} {p : ℕ} {t : List ℕ} {i : Fin 64}

/-- No folder is looked at in the root. -/
def FlatRoot (s : Fs) : Prop :=
  ∀ i, Looked 2 i → (tableAt s 2 i).InUse → (tableAt s 2 i).attr ≠ ATTR_SUBDIRECTORY

namespace FlatRoot

variable (h : FlatRoot s)

include h

theorem scanned (hy : Scanned s t) : t = [2] := by
  induction hy with
  | root => rfl
  | sub _ hc hi ih =>
    obtain rfl := (List.cons.inj ih).1
    exact absurd hc.attr (h _ hi hc.held.inUse)

theorem level_iff {k : ℕ} (ht : t ∈ level (subways s) [[2]] k) : k = 0 ∧ t = [2] := by
  obtain ⟨hscan, hlen⟩ := mem_level_iff.mp ht
  rw [h.scanned hscan] at hlen
  exact ⟨(Nat.succ.inj hlen).symm, h.scanned hscan⟩

theorem subways_root : subways s [2] = [] := by
  refine List.eq_nil_iff_forall_not_mem.mpr fun y hy => ?_
  have hlevel : y ∈ level (subways s) [[2]] 1 := mem_level_succ.mpr ⟨[2], List.mem_singleton_self _, hy⟩
  exact absurd (h.level_iff hlevel).1 Nat.one_ne_zero

/-- Nothing waits behind the root. -/
theorem fits : Roomy (subways s) [[2]] 20 := by
  intro k A d B hlevel
  have hmem : d ∈ level (subways s) [[2]] k := by
    rw [hlevel]
    simp
  obtain ⟨rfl, rfl⟩ := h.level_iff hmem
  have hlen : [[2]].length = (A ++ [2] :: B).length := congrArg List.length hlevel
  rw [List.length_append, List.length_cons, List.length_cons, List.length_nil] at hlen
  obtain rfl : A = [] := List.length_eq_zero_iff.mp (by omega)
  obtain rfl : B = [] := List.length_eq_zero_iff.mp (by omega)
  rw [List.nil_append, List.nil_append, List.flatMap_singleton, h.subways_root]
  exact Nat.zero_le _

theorem depth (ht : Scanned s t) : t.length ≤ 16 := by
  rw [h.scanned ht]
  decide

end FlatRoot

end

/-! ## Every target -/

section

variable {v : FindLocals} {s : Fs} {target : List UInt8} {p : ℕ} {i : Fin 64} {fuel : ℕ} {shown : List Shown}

/-- The string at the front of an object that has a zero. -/
theorem takeWhile_prefix_zero {mem : List UInt8} (h : 0 ∈ mem) : mem.takeWhile (· ≠ 0) ++ [0] <+: mem := by
  induction mem with
  | nil => exact absurd h List.not_mem_nil
  | cons a mem ih =>
    by_cases ha : a = 0
    · subst ha
      simp
    · have hmem : 0 ∈ mem := (List.mem_cons.mp h).resolve_left (Ne.symm ha)
      rw [List.takeWhile_cons_of_pos (by simpa using ha), List.cons_append, List.cons_prefix_cons]
      exact ⟨rfl, ih hmem⟩

/-- Some text longer than a name lets an entry pass. -/
theorem exists_passes (hs : Inv s) (hnamed : ProperNames s) (h : Held s p i) :
    ∃ text : List UInt8, 8 < text.length ∧ 0 ∉ text ∧ Passes s text p i := by
  have hend : (table_bytes (tableAt s p) i)[13]? = some 0 := by rw [table_bytes_undelete, (h.fields hs).2]
  have hstring := takeWhile_prefix_zero (List.mem_of_getElem? hend)
  obtain ⟨n, hn, hname⟩ := hnamed p i h
  have hfirst : (table_bytes (tableAt s p) i)[0]? = some (n.getD 0 0) := by
    refine (table_bytes_name (tableAt s p) i 0).trans ?_
    rw [hname]
    rfl
  have hne : n.getD 0 0 ≠ 0 := by
    have hpos := List.length_pos_iff.mpr hn.pos
    rw [List.getD_eq_getElem _ _ hpos]
    exact fun h0 => hn.no_zero (h0 ▸ List.getElem_mem hpos)
  have hzero : 0 ∉ (table_bytes (tableAt s p) i).takeWhile (· ≠ 0) := fun hm => by
    simpa using List.mem_takeWhile_imp hm
  have hpos : 0 < ((table_bytes (tableAt s p) i).takeWhile (· ≠ 0)).length := by
    match htable : table_bytes (tableAt s p) i, hfirst with
    | a :: mem, hfirst =>
      obtain rfl : a = n.getD 0 0 := Option.some.inj hfirst
      rw [List.takeWhile_cons_of_pos (by simpa using hne)]
      exact Nat.succ_pos _
  generalize (table_bytes (tableAt s p) i).takeWhile (· ≠ 0) = name at hstring hzero hpos
  have hbyte := List.prefix_iff_getElem?.mp hstring
  refine ⟨name ++ List.replicate 8 120, ?_, ?_, h.inUse,
    strcmp_of_prefix (n := name.length - 1) (fun k hk => ?_) ?_⟩
  · rw [List.length_append, List.length_replicate]
    omega
  · rw [List.mem_append, List.mem_replicate]
    rintro (hm | ⟨-, h0⟩)
    · exact hzero hm
    · exact absurd h0 (by decide)
  · have hk : k < name.length := by omega
    rw [hbyte k (by rw [List.length_append]; omega), List.getElem_append_left hk, cstring,
      List.getD_append _ _ _ _ hk, List.getD_eq_getElem _ _ hk]
  · rw [Nat.sub_add_cancel hpos, hbyte name.length (by simp), List.getElem_concat_length rfl]

/-- Something is shown for an entry of the root that is looked at and passes. -/
theorem bfs_find_shows (hs : Inv s) (hroot : RootSelf s) (hnamed : ProperNames s) (hi : Looked 2 i)
    (hpass : Passes s target 2 i) (h : bfs_find fuel v s target = .ok shown) : .chars [10] WHITE ∈ shown := by
  obtain ⟨filename, hname, hrest⟩ := bind_ok h
  obtain rfl : root_text = filename := Except.ok.inj hname
  obtain ⟨st, hloop, hend⟩ := bind_ok hrest
  cases fuel with
  | zero => exact absurd hloop (by simp [find_loop])
  | succ fuel =>
    rw [root_info_eq hroot] at hloop
    obtain ⟨q, hdequeue, -⟩ := ((Ring.Holds.create v.items).enqueue (a := infoOf s v.clusterpathing [2])
      (by decide)).dequeue
    rw [find_loop, hdequeue] at hloop
    dsimp only at hloop
    rw [if_pos (read_waiting hs hroot hnamed .root)] at hloop
    obtain ⟨st₁, hentries, hwalk⟩ := bind_ok hloop
    have htable : table_of s (infoOf s v.clusterpathing [2]).cluster_number = tableAt s 2 :=
      table_of_eq hs .root
    rw [htable] at hentries
    have hshown := (find_loop_shown hwalk).subset
      ((find_entries_shown hentries).2 i (mem_find_slots.mpr hi) hpass.1 hpass.2)
    split_ifs at hend
    · obtain rfl := Except.ok.inj hend
      exact List.mem_append_left _ hshown
    · obtain rfl := Except.ok.inj hend
      exact hshown

/-- Without targets only the message is shown. -/
theorem Complete.only_message (h : Complete v s target) (hnone : Targets s target = ∅) :
    ∃ fuel, bfs_find fuel v s target = .ok [notFound] := by
  obtain ⟨fuel, shown, hfind, found, lines, -, hmem, hlines, rfl⟩ := h
  have hnil : found = [] := List.eq_nil_iff_forall_not_mem.mpr fun x hx => by
    rw [hmem, hnone] at hx
    exact hx
  subst hnil
  cases hlines
  exact ⟨fuel, hfind⟩

theorem exists_root_entry (h : Held s p i) : ∃ j, Held s 2 j := by
  obtain ⟨hlive, hi, hu⟩ := h
  induction hlive generalizing i with
  | root => exact ⟨i, .root, hi, hu⟩
  | sub _ hj huj _ ih => exact ih hj huj

/-- A root with nothing to look at. -/
theorem walkable_of_nothing (v : FindLocals) (target : List UInt8)
    (hnone : ∀ j, Looked 2 j → ¬ (tableAt s 2 j).InUse) :
    Walkable v s target ∧ Passing s target = ∅ := by
  have hflat : FlatRoot s := fun j hj hu => absurd hu (hnone j hj)
  have hempty : Passing s target = ∅ := Set.eq_empty_iff_forall_notMem.mpr
    fun ⟨p, j⟩ ⟨⟨t, hscan⟩, hj, hpass⟩ => by
    obtain rfl := (List.cons.inj (hflat.scanned hscan)).1
    exact hnone j hj hpass.1
  refine ⟨⟨fun _ => hflat.depth, hflat.fits, fun hne => ?_, fun p t i _ hp => ?_, fun x hx => ?_⟩, hempty⟩
  · rw [hempty] at hne
    exact absurd hne Set.not_nonempty_empty
  · rw [hempty] at hp
    exact absurd hp (Set.notMem_empty _)
  · rw [hempty] at hx
    exact absurd hx (Set.notMem_empty _)

/-- **Trees in which `find` is complete for every target**: those without entries. A longer text than the name
of an entry makes `find` show it, unless it is in slot 1. -/
theorem complete_for_all_iff (hs : Inv s) (hroot : RootSelf s) (hnamed : ProperNames s) :
    (∀ target, target ≠ [] → 0 ∉ target → Complete v s target) ↔ ∀ p i, ¬ Held s p i := by
  constructor
  · intro hall p i hheld
    obtain ⟨j, hj⟩ := exists_root_entry hheld
    by_cases hsome : ∃ k, Looked 2 k ∧ (tableAt s 2 k).InUse
    · obtain ⟨k, hk, hu⟩ := hsome
      obtain ⟨text, hlen, hzero, hpass⟩ := exists_passes hs hnamed ⟨.root, hk.1, hu⟩
      have hnone : Targets s text = ∅ := Set.eq_empty_iff_forall_notMem.mpr fun x hx =>
        absurd hx.2.2.1 (by omega)
      have hne : text ≠ [] := fun he => by
        rw [he, List.length_nil] at hlen
        omega
      obtain ⟨fuel, hfind⟩ := (hall text hne hzero).only_message hnone
      have hshown := bfs_find_shows hs hroot hnamed hk hpass hfind
      exact absurd hshown (by simp [notFound])
    · obtain ⟨n, hn, hname⟩ := hnamed 2 j hj
      have hcomplete := hall n hn.pos hn.no_zero
      obtain ⟨hwalk, hempty⟩ := walkable_of_nothing v n fun k hk hu => hsome ⟨k, hk, hu⟩
      have hcount := hcomplete.ncard_eq hs hroot hnamed hwalk
      obtain ⟨-, -, -, found, -, hnodup, hmem, -, -⟩ := hcomplete
      rw [hempty, Set.ncard_empty, ncard_of_list hnodup hmem, eq_comm, List.length_eq_zero_iff] at hcount
      have htarget : (2, j) ∈ found := (hmem _).mpr ⟨hj, hj.inUse, hn.le, hname⟩
      rw [hcount] at htarget
      exact List.not_mem_nil htarget
  · intro hnone target _ _
    obtain ⟨hwalk, hempty⟩ := walkable_of_nothing v target fun k hk hu => hnone 2 k ⟨.root, hk.1, hu⟩
    have htargets : Targets s target = ∅ := Set.eq_empty_iff_forall_notMem.mpr fun x hx => hnone _ _ hx.1
    refine complete_of_searchable hs hroot hnamed ⟨hwalk.depth, hwalk.room, hempty.trans htargets.symm,
      fun hne => ?_, fun x hx => ?_, fun _ => htargets⟩
    · rw [htargets] at hne
      exact absurd hne Set.not_nonempty_empty
    · rw [htargets] at hx
      exact absurd hx (Set.notMem_empty _)

end

/-- **When `find` is complete**: for one target, when the directories looked at are less than sixteen deep, at
most twenty wait, what is looked at and passes are the targets, and their number is no multiple of 256. A walk
that comes to its end is complete exactly when what it finds has the lines of the targets, and their number is no
multiple of 256. For every target `find` is complete exactly when there are no entries. -/
theorem find_complete (d : Disk) (es : List (FAT32DirectoryTable × Call × Reply)) (s : Fs)
    (hrun : Run StepOn (boot d) es s) (hclean : ∀ e ∈ es, CleanStack e) (hproper : ∀ e ∈ es, ProperWrite e)
    (v : FindLocals) :
    (∀ target, (Searchable v s target → Complete v s target) ∧
      (Walkable v s target → (Complete v s target ↔
        SameLines s target ∧ (256 ∣ (Targets s target).ncard → Targets s target = ∅)))) ∧
    ((∀ target, target ≠ [] → 0 ∉ target → Complete v s target) ↔ ∀ p i, ¬ Held s p i) := by
  obtain ⟨hs, hroot⟩ := rootSelf_of_runOn hrun hclean
  have hnamed := properNames_of_runOn hrun hclean hproper
  exact ⟨fun _ => ⟨complete_of_searchable hs hroot hnamed, complete_iff hs hroot hnamed⟩,
    complete_for_all_iff hs hroot hnamed⟩

/-! ## Two files -/

/-- The root holds `a.txt` in slot 1 and `b.txt` in slot `k`. -/
structure TwoTexts (s : Fs) (k : Fin 64) (c₁ c₂ : UInt32) : Prop where
  ne_zero : k ≠ 0
  ne_one : k ≠ 1
  table : tableAt s 2 = Function.update (Function.update (tableAt (boot 0) 2) 1
    (fileEntry (padded [97]) (padded text) 1 c₁)) k (fileEntry (padded [98]) (padded text) 1 c₂)

/-- Every uninitialised byte is zero. -/
def zeroLocals : FindLocals where
  items _ := ⟨[], 0, 0, 0, 0⟩
  clusterpathing := 0
  path := 0
  behind_ext _ _ := [0]

theorem boot_two_texts : ∃ es s k c₁ c₂, Run StepOn (boot 0) es s ∧ (∀ e ∈ es, CleanStack e) ∧
    (∀ e ∈ es, ProperWrite e) ∧ TwoTexts s k c₁ c₂ := by
  obtain ⟨q₁, s₁, c₁, l, hstep₁, hfile₁, htable₁, hcells₁⟩ := boot_textFile token_a sizeOk_one
  have hrun₁ := Run.single hstep₁
  obtain ⟨hs₁, -⟩ := rootSelf_of_runOn hrun₁ (clean_single _ _)
  have hone : clustersFor (1 : UInt32).toNat = 1 := by decide
  rw [hone] at hcells₁
  obtain ⟨q₂, s, k, c₂, hstep₂, hk0, hk1, -, -, htable, -⟩ := second_text hs₁ hfile₁ htable₁ (by omega)
  refine ⟨_, s, k, c₁, c₂, hrun₁.snoc hstep₂.on, fun e he => ?_, fun e he => ?_, hk0, hk1,
    by rw [htable, htable₁]⟩
  · rcases List.mem_append.mp he with he | he
    · exact clean_single _ _ e he
    · exact clean_single _ _ e he
  · rcases List.mem_append.mp he with he | he
    · obtain rfl := List.mem_singleton.mp he
      exact ⟨[97], ⟨by decide, by decide, by decide⟩, rfl⟩
    · obtain rfl := List.mem_singleton.mp he
      exact ⟨[98], ⟨by decide, by decide, by decide⟩, rfl⟩

namespace TwoTexts

variable {s : Fs} {k i : Fin 64} {c₁ c₂ : UInt32} {p : ℕ} {u : List UInt8}

theorem second (h : TwoTexts s k c₁ c₂) : tableAt s 2 k = fileEntry (padded [98]) (padded text) 1 c₂ := by
  rw [h.table, Function.update_self]

theorem first (h : TwoTexts s k c₁ c₂) : tableAt s 2 1 = fileEntry (padded [97]) (padded text) 1 c₁ := by
  rw [h.table, Function.update_of_ne h.ne_one.symm, Function.update_self]

theorem slot (h : TwoTexts s k c₁ c₂) (hi : i ≠ 0) (hu : (tableAt s 2 i).InUse) : i = 1 ∨ i = k := by
  by_contra hne
  obtain ⟨h1, hk⟩ := not_or.mp hne
  rw [h.table, Function.update_of_ne hk, Function.update_of_ne h1, boot_slot 0 hi] at hu
  exact not_inUse_zero hu

theorem no_folder (h : TwoTexts s k c₁ c₂) (hi : i ≠ 0) (hu : (tableAt s 2 i).InUse) :
    (tableAt s 2 i).attr ≠ ATTR_SUBDIRECTORY := by
  rcases h.slot hi hu with rfl | rfl
  · rw [h.first]
    exact attr_fileEntry _ _ _ _
  · rw [h.second]
    exact attr_fileEntry _ _ _ _

theorem live (h : TwoTexts s k c₁ c₂) (hp : Live s p) : p = 2 := by
  induction hp with
  | root => rfl
  | sub _ hi hu hattr ih =>
    subst ih
    exact absurd hattr (h.no_folder hi hu)

theorem flatRoot (h : TwoTexts s k c₁ c₂) : FlatRoot s := fun _ hi hu => h.no_folder hi.1 hu

/-- What starts with `b` lets `b.txt` pass. -/
theorem passing (h : TwoTexts s k c₁ c₂) : Passing s (98 :: u) = {(2, k)} := by
  ext ⟨p, i⟩
  rw [Set.mem_singleton_iff, Prod.mk.injEq]
  constructor
  · rintro ⟨⟨t, hscan⟩, hi, hu, -⟩
    obtain rfl : p = 2 := (List.cons.inj (h.flatRoot.scanned hscan)).1
    exact ⟨rfl, (h.slot hi.1 hu).resolve_left fun h1 => hi.2 ⟨rfl, h1⟩⟩
  · rintro ⟨rfl, rfl⟩
    refine ⟨⟨[], .root⟩, ⟨h.ne_zero, fun h1 => h.ne_one h1.2⟩, ?_, ?_⟩
    · rw [h.second]
      rfl
    · apply foundIn_of_first
      · rw [h.second]
        rfl
      · rw [h.second]
        rfl

theorem walkable (h : TwoTexts s k c₁ c₂) (hlen : u.length ≤ 100) : Walkable zeroLocals s (98 :: u) where
  depth _ := h.flatRoot.depth
  room := h.flatRoot.fits
  path _ := rfl
  fits p y i hscan _ := by
    have hway := length_wayText_le s (p :: y)
    rw [h.flatRoot.scanned hscan] at hway ⊢
    rw [List.length_singleton] at hway
    rw [List.length_cons]
    omega
  ext _ _ _ _ := rfl

theorem targets (h : TwoTexts s k c₁ c₂) : Targets s [98] = {(2, k)} := by
  ext ⟨p, i⟩
  rw [Set.mem_singleton_iff, Prod.mk.injEq]
  constructor
  · rintro ⟨hheld, -, -, hname⟩
    obtain rfl := h.live hheld.live
    refine ⟨rfl, (h.slot hheld.slot hheld.inUse).resolve_left ?_⟩
    rintro rfl
    have hname : (tableAt s 2 1).name = padded [98] := hname
    rw [h.first] at hname
    exact absurd (show (97 : UInt8) = 98 from congrFun hname 0) (by decide)
  · rintro ⟨rfl, rfl⟩
    refine ⟨⟨.root, h.ne_zero, ?_⟩, ?_, by decide, ?_⟩
    · rw [h.second]
      rfl
    · rw [h.second]
      rfl
    · rw [h.second]
      rfl

theorem no_target (h : TwoTexts s k c₁ c₂) : Targets s [98, 99] = ∅ := by
  refine Set.eq_empty_iff_forall_notMem.mpr fun ⟨p, i⟩ hx => ?_
  obtain ⟨hheld, -, -, hname⟩ := hx
  obtain rfl := h.live hheld.live
  have hsecond : (tableAt s 2 i).name 1 = 99 := congrFun hname 1
  rcases h.slot hheld.slot hheld.inUse with rfl | rfl
  · rw [h.first] at hsecond
    exact absurd (show (0 : UInt8) = 99 from hsecond) (by decide)
  · rw [h.second] at hsecond
    exact absurd (show (0 : UInt8) = 99 from hsecond) (by decide)

theorem searchable (h : TwoTexts s k c₁ c₂) : Searchable zeroLocals s [98] where
  depth _ := h.flatRoot.depth
  room := h.flatRoot.fits
  exact := h.passing.trans h.targets.symm
  path _ := rfl
  ext _ _ _ _ := rfl
  count hdvd := by
    rw [h.targets, Set.ncard_singleton] at hdvd
    exact absurd hdvd (by decide)

end TwoTexts

/-- `find b` in that root. -/
theorem find_complete_b : ∃ es s k c₁ c₂, Run StepOn (boot 0) es s ∧ TwoTexts s k c₁ c₂ ∧
    Complete zeroLocals s [98] := by
  obtain ⟨es, s, k, c₁, c₂, hrun, hclean, hproper, h⟩ := boot_two_texts
  exact ⟨es, s, k, c₁, c₂, hrun, h,
    ((find_complete 0 es s hrun hclean hproper zeroLocals).1 [98]).1 h.searchable⟩

/-- `find bc` shows `ROOT/bc.txt`, which is not there. -/
theorem find_shows_shorter_name : ∃ es s k c₁ c₂, Run StepOn (boot 0) es s ∧ (∀ e ∈ es, CleanStack e) ∧
    (∀ e ∈ es, ProperWrite e) ∧ TwoTexts s k c₁ c₂ ∧ ¬ Complete zeroLocals s [98, 99] := by
  obtain ⟨es, s, k, c₁, c₂, hrun, hclean, hproper, h⟩ := boot_two_texts
  obtain ⟨hs, hroot⟩ := rootSelf_of_runOn hrun hclean
  refine ⟨es, s, k, c₁, c₂, hrun, hclean, hproper, h, fun hcomplete => ?_⟩
  have hcount := hcomplete.ncard_eq hs hroot (properNames_of_runOn hrun hclean hproper)
    (h.walkable (u := [99]) (by decide))
  rw [h.passing, h.no_target, Set.ncard_singleton, Set.ncard_empty] at hcount
  exact absurd hcount Nat.one_ne_zero

end KeropOS
