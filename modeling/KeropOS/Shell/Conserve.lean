import KeropOS.Fat.Calls
import KeropOS.Shell.Tables

/-!
# When `mv` conserves entries

* `Named`: the entry a string names; `Moved`, `Conserved`: what `mv` promises;
* `Unmoved`, `MovesTo`, `Conserves`: the inputs on which it keeps the promise;
* **`Move.conserved_iff`**, **`mv_conserves_iff`**: exactly on these, and on those it refuses.
-/

namespace KeropOS

open Packed Transition

/-! ## The promise -/

/-- The string at `m` is a name, of at most eight characters, and an extension, of at most three, with
a dot between them; the dot may be missing with the extension. -/
def Named (m : Buffer) (name : Bytes 8) (ext : Bytes 3) : Prop :=
  ∃ a b : List UInt8, a ≠ [] ∧ a.length ≤ 8 ∧ 46 ∉ a ∧ b.length ≤ 3 ∧
    (∀ i, name i = a.getD i 0) ∧ (∀ i, ext i = b.getD i 0) ∧
    (IsString m (a ++ 46 :: b) ∨ b = [] ∧ IsString m a)

namespace Move

variable (m : Move)

/-- Entry `i`, named `src`, is gone from the source, and slot `n` of the destination, free before, has
it under the name `dest`; nothing else changes in the two tables. -/
structure Moved (s' : Fs) (i n : Fin 64) : Prop where
  slot : i ≠ 0
  inUse : (m.source i).InUse
  src : Named m.src (m.source i).name (m.source i).ext
  gone : ¬ (tableAt s' m.cur i).InUse
  free : ¬ (m.target n).InUse
  placed : (tableAt s' m.dst n).InUse
  dest : Named m.dest (tableAt s' m.dst n).name (tableAt s' m.dst n).ext
  attr : (tableAt s' m.dst n).attr = (m.source i).attr
  cluster : (tableAt s' m.dst n).cluster = (m.source i).cluster
  filesize : (tableAt s' m.dst n).filesize = (m.source i).filesize
  source : ∀ k, k ≠ i → ¬ (m.dst = m.cur ∧ k = n) → tableAt s' m.cur k = m.source k
  target : ∀ k, k ≠ n → ¬ (m.dst = m.cur ∧ k = i) → tableAt s' m.dst k = m.target k

/-- Both tables are unchanged, or one entry has moved. -/
def Conserved (s' : Fs) : Prop :=
  (tableAt s' m.cur = m.source ∧ tableAt s' m.dst = m.target) ∨ ∃ i n, m.Moved s' i n

/-! ## The inputs -/

/-- What clearing an entry sets to zero is zero. -/
def Blank (e : FAT32DirectoryEntry) : Prop :=
  e.name = 0 ∧ e.ext = 0 ∧ e.attr = 0 ∧ e.user_attribute = 0 ∧ e.cluster_high = 0 ∧ e.cluster_low = 0 ∧
    e.filesize = 0

/-- What the local variables hold after the loop: the fields of the last entry found, or else what
they held before. -/
def Comes (v : Saved) : Prop :=
  (∃ i, m.Found i ∧ (∀ k, m.Found k → k ≤ i) ∧ v = (m.source i).saved) ∨
    (∀ k, ¬ m.Found k) ∧ v = m.uninitialised

/-- `name` holds the characters of `dest` before its first dot, and `ext` the three after it. -/
def Copied (name : Bytes 8) (ext : Bytes 3) : Prop :=
  ∃ p, DotAt m.dest p ∧ (∀ i : Fin 8, name i = if i < p then m.dest i else 0) ∧
    ∀ i : Fin 3, ext i = m.dest (p + i + 1)

/-- `src` finds blank entries only, except for one that is put back where it was; and whatever slot is
filled has all that is put there. -/
def Unmoved : Prop :=
  (∀ k, m.Found k → ¬ (m.dst = m.cur ∧ m.Goes k) → Blank (m.source k)) ∧
    ∀ n, m.Goes n → m.Comes (m.target n).saved ∧ m.Copied (m.target n).name (m.target n).ext

/-- `src` finds entry `i` last, which it names, and blank entries besides; the entry goes to slot `n`,
which was free before, and what is copied of `dest` is what `dest` names. -/
structure MovesTo (i n : Fin 64) : Prop where
  slot : i ≠ 0
  inUse : (m.source i).InUse
  src : Named m.src (m.source i).name (m.source i).ext
  found : m.Found i
  last : ∀ k, m.Found k → k ≤ i
  other : ∀ k, m.Found k → k ≠ i → ¬ (m.dst = m.cur ∧ k = n) → Blank (m.source k)
  goes : m.Goes n
  free : ¬ (m.target n).InUse
  dest : ∃ name ext, m.Copied name ext ∧ Named m.dest name ext

/-- The inputs on which `mv` conserves entries. -/
def Conserves : Prop := m.Refused ∨ m.Unmoved ∨ ∃ i n, m.MovesTo i n

variable {m}

/-! ## Entries -/

theorem cleared_eq_iff {e : FAT32DirectoryEntry} : e.cleared = e ↔ Blank e := by
  cases e
  simp only [FAT32DirectoryEntry.cleared, Blank, FAT32DirectoryEntry.mk.injEq, true_and]
  constructor
  · rintro ⟨h1, h2, h3, h4, h5, h6, h7⟩
    exact ⟨h1.symm, h2.symm, h3.symm, h4.symm, h5.symm, h6.symm, h7.symm⟩
  · rintro ⟨h1, h2, h3, h4, h5, h6, h7⟩
    exact ⟨h1.symm, h2.symm, h3.symm, h4.symm, h5.symm, h6.symm, h7.symm⟩

theorem not_inUse_cleared (e : FAT32DirectoryEntry) : ¬ e.cleared.InUse := fun h =>
  absurd (show (0 : UInt8) = UATTR_NOT_EMPTY from h) (by decide)

theorem Blank.not_inUse {e : FAT32DirectoryEntry} (h : Blank e) : ¬ e.InUse := by
  rw [← cleared_eq_iff.mpr h]
  exact not_inUse_cleared e

/-- What the loop leaves in use was in use, and it was not found. -/
theorem inUse_sourceAfter {k : Fin 64} (h : (m.sourceAfter k).InUse) : (m.source k).InUse ∧ ¬ m.Found k := by
  rw [sourceAfter] at h
  split_ifs at h with hf
  · exact absurd h (not_inUse_cleared _)
  · exact ⟨h, hf⟩

theorem sourceAfter_eq_iff {k : Fin 64} : m.sourceAfter k = m.source k ↔ (m.Found k → Blank (m.source k)) := by
  rw [sourceAfter]
  split_ifs with hf
  · rw [cleared_eq_iff]
    exact ⟨fun h _ => h, fun h => h hf⟩
  · exact iff_of_true rfl fun h => absurd h hf

theorem targetAfter_of_eq (h : m.dst = m.cur) : m.targetAfter = m.sourceAfter := if_pos h

theorem targetAfter_of_ne (h : m.dst ≠ m.cur) : m.targetAfter = m.target := if_neg h

theorem target_of_eq (h : m.dst = m.cur) : m.target = m.source := by
  rw [target, h, source]

theorem inUse_targetAfter {k : Fin 64} (h : (m.targetAfter k).InUse) : (m.target k).InUse := by
  by_cases hsame : m.dst = m.cur
  · rw [targetAfter_of_eq hsame] at h
    rw [target_of_eq hsame]
    exact (inUse_sourceAfter h).1
  · rwa [targetAfter_of_ne hsame] at h

/-! ## The last entry found -/

theorem saveLast_cases (t : FAT32DirectoryTable) (filename : Buffer) {slots : List (Fin 64)} (v : Saved)
    (hsort : slots.Pairwise (· < ·)) :
    (∃ i ∈ slots, FoundIn t filename i ∧ (∀ k ∈ slots, FoundIn t filename k → k ≤ i) ∧
      saveLast t filename slots v = (t i).saved) ∨
    ((∀ k ∈ slots, ¬ FoundIn t filename k) ∧ saveLast t filename slots v = v) := by
  induction slots generalizing v with
  | nil => exact .inr ⟨fun _ h => absurd h (by simp), rfl⟩
  | cons j slots ih =>
    obtain ⟨hj, hsort⟩ := List.pairwise_cons.mp hsort
    rw [saveLast, List.foldl_cons, ← saveLast]
    rcases ih (if FoundIn t filename j then (t j).saved else v) hsort with ⟨i, hi, hf, hlast, hv⟩ | ⟨hnone, hv⟩
    · refine .inl ⟨i, List.mem_cons_of_mem _ hi, hf, fun k hk hkf => ?_, hv⟩
      rcases List.mem_cons.mp hk with rfl | hk
      · exact (hj i hi).le
      · exact hlast k hk hkf
    · rw [hv]
      by_cases hf : FoundIn t filename j
      · refine .inl ⟨j, List.mem_cons_self .., hf, fun k hk hkf => ?_, if_pos hf⟩
        rcases List.mem_cons.mp hk with rfl | hk
        · exact le_rfl
        · exact absurd hkf (hnone k hk)
      · refine .inr ⟨fun k hk => ?_, if_neg hf⟩
        rcases List.mem_cons.mp hk with rfl | hk
        · exact hf
        · exact hnone k hk

theorem comes_saved : m.Comes m.saved := by
  rcases saveLast_cases m.source m.src m.uninitialised (List.pairwise_lt_finRange 64) with
    ⟨i, -, hi, hlast, hv⟩ | ⟨hnone, hv⟩
  · exact .inl ⟨i, hi, fun k hk => hlast k (List.mem_finRange k) hk, hv⟩
  · exact .inr ⟨fun k => hnone k (List.mem_finRange k), hv⟩

/-- Two entries found last are one. -/
theorem Comes.unique {v w : Saved} (hv : m.Comes v) (hw : m.Comes w) : v = w := by
  rcases hv with ⟨i, hi, hlast, rfl⟩ | ⟨hnone, rfl⟩ <;> rcases hw with ⟨j, hj, hlast', rfl⟩ | ⟨hnone', rfl⟩
  · rw [le_antisymm (hlast' i hi) (hlast j hj)]
  · exact absurd hi (hnone' i)
  · exact absurd hj (hnone j)
  · rfl

theorem comes_iff {v : Saved} : m.Comes v ↔ m.saved = v :=
  ⟨fun h => comes_saved.unique h, fun h => h ▸ comes_saved⟩

/-- `emvi` has the last entry found on its way. -/
theorem saved_of_last {i : Fin 64} (hi : m.Found i) (hlast : ∀ k, m.Found k → k ≤ i) :
    m.saved = (m.source i).saved :=
  comes_iff.mp (.inl ⟨i, hi, hlast, rfl⟩)

theorem exists_last {i : Fin 64} (hi : m.Found i) :
    ∃ j, m.Found j ∧ (∀ k, m.Found k → k ≤ j) ∧ m.saved = (m.source j).saved := by
  rcases m.comes_saved with h | ⟨hnone, -⟩
  · exact h
  · exact absurd hi (hnone i)

theorem copied_iff {name : Bytes 8} {ext : Bytes 3} (hdot : ∃ p, DotAt m.dest p) :
    m.Copied name ext ↔ dest_name m.dest = name ∧ dest_ext m.dest = ext := by
  obtain ⟨p, hp⟩ := hdot
  obtain ⟨hle, rfl⟩ := dotAt_iff.mp hp
  constructor
  · rintro ⟨q, hq, hname, hext⟩
    obtain ⟨-, rfl⟩ := dotAt_iff.mp hq
    exact ⟨funext fun i => (hname i).symm, funext fun i => (hext i).symm⟩
  · rintro ⟨rfl, rfl⟩
    exact ⟨_, hp, fun _ => rfl, fun _ => rfl⟩

/-! ## Cleared only -/

/-- What is found is lost, unless it is blank. -/
theorem Taken.conserved_iff {s' : Fs} (h : m.Taken s') :
    m.Conserved s' ↔ ∀ k, m.Found k → Blank (m.source k) := by
  have hsource : tableAt s' m.cur = m.source ↔ ∀ k, m.Found k → Blank (m.source k) := by
    rw [h.source, funext_iff]
    exact forall_congr' fun k => sourceAfter_eq_iff
  rw [Conserved, ← hsource]
  constructor
  · rintro (⟨hs, -⟩ | ⟨i, n, hm⟩)
    · exact hs
    · -- nothing has come into the destination
      have hplaced := hm.placed
      rw [h.target] at hplaced
      exact absurd (inUse_targetAfter hplaced) hm.free
  · intro hs
    refine .inl ⟨hs, ?_⟩
    by_cases hsame : m.dst = m.cur
    · rw [target_of_eq hsame, ← hs, hsame]
    · rw [h.target, targetAfter_of_ne hsame]

/-! ## A slot filled -/

theorem Goes.unique {i j : Fin 64} (hi : m.Goes i) (hj : m.Goes j) : i = j :=
  hi.2.2.unique hj.2.2

theorem filled_inUse {e : FAT32DirectoryEntry} {v : Saved} {name : Bytes 8} {ext : Bytes 3} :
    (e.filled v name ext).InUse ↔ v.user_attribute = UATTR_NOT_EMPTY := .rfl

theorem filled_eq_iff {e : FAT32DirectoryEntry} {v : Saved} {name : Bytes 8} {ext : Bytes 3} :
    e.filled v name ext = e ↔ v = e.saved ∧ name = e.name ∧ ext = e.ext := by
  cases e
  cases v
  simp only [FAT32DirectoryEntry.filled, FAT32DirectoryEntry.saved, FAT32DirectoryEntry.mk.injEq,
    Saved.mk.injEq, true_and]
  tauto

theorem saved_inUse {e : FAT32DirectoryEntry} : e.saved.user_attribute = UATTR_NOT_EMPTY ↔ e.InUse := .rfl

theorem filled_cluster {e e' : FAT32DirectoryEntry} {name : Bytes 8} {ext : Bytes 3} :
    (e.filled e'.saved name ext).cluster = e'.cluster := rfl

theorem Goes.entry_eq_iff {n : Fin 64} (h : m.Goes n) : m.entry n = m.target n ↔
    m.Comes (m.target n).saved ∧ m.Copied (m.target n).name (m.target n).ext := by
  rw [entry, filled_eq_iff, comes_iff, copied_iff h.2.1]

section Placed

variable {s' : Fs} {i n : Fin 64}

theorem Placed.source_eq (h : m.Placed s' n) (k : Fin 64) : tableAt s' m.cur k =
    if m.dst = m.cur ∧ k = n then m.entry n else m.sourceAfter k := by
  by_cases hsame : m.dst = m.cur
  · rw [← hsame, h.target, targetAfter_of_eq hsame]
    by_cases hk : k = n
    · rw [hk, Function.update_self, if_pos ⟨rfl, rfl⟩]
    · rw [Function.update_of_ne hk, if_neg fun h => hk h.2]
  · rw [h.source hsame, if_neg fun h => hsame h.1]

theorem Placed.target_self (h : m.Placed s' n) : tableAt s' m.dst n = m.entry n := by
  rw [h.target, Function.update_self]

theorem Placed.target_of_ne (h : m.Placed s' n) {k : Fin 64} (hk : k ≠ n) :
    tableAt s' m.dst k = m.targetAfter k := by
  rw [h.target, Function.update_of_ne hk]

/-- When nothing changes. -/
theorem Placed.unchanged_iff (h : m.Placed s' n) (hn : m.Goes n) :
    (tableAt s' m.cur = m.source ∧ tableAt s' m.dst = m.target) ↔ m.Unmoved := by
  have hgoes : ∀ k, m.Goes k ↔ k = n := fun k => ⟨fun hk => hk.unique hn, fun hk => hk ▸ hn⟩
  constructor
  · rintro ⟨hs, ht⟩
    refine ⟨fun k hf hk => ?_, fun k hk => ?_⟩
    · rw [hgoes] at hk
      have := h.source_eq k
      rw [hs, if_neg hk] at this
      exact sourceAfter_eq_iff.mp this.symm hf
    · rw [← hk.entry_eq_iff, (hgoes k).mp hk, ← h.target_self, ht]
  · rintro ⟨hblank, hkept⟩
    have hentry : m.entry n = m.target n := hn.entry_eq_iff.mpr (hkept n hn)
    have hafter : ∀ k, ¬ (m.dst = m.cur ∧ k = n) → m.sourceAfter k = m.source k := fun k hk =>
      sourceAfter_eq_iff.mpr fun hf => hblank k hf (by rwa [hgoes])
    refine ⟨funext fun k => ?_, funext fun k => ?_⟩
    · rw [h.source_eq]
      split_ifs with hk
      · rw [hentry, target_of_eq hk.1, hk.2]
      · exact hafter k hk
    · by_cases hk : k = n
      · rw [hk, h.target_self, hentry]
      · rw [h.target_of_ne hk]
        by_cases hsame : m.dst = m.cur
        · rw [targetAfter_of_eq hsame, target_of_eq hsame, hafter k fun h => hk h.2]
        · rw [targetAfter_of_ne hsame]

/-- What moves was found, last of all, and goes to the slot filled. -/
theorem Moved.movesTo {j : Fin 64} (hm : m.Moved s' i j) (h : m.Placed s' n) (hn : m.Goes n) :
    m.MovesTo i j := by
  obtain rfl : j = n := by
    by_contra hj
    have hplaced := hm.placed
    rw [h.target_of_ne hj] at hplaced
    exact hm.free (inUse_targetAfter hplaced)
  have hentry : m.saved.user_attribute = UATTR_NOT_EMPTY := by
    have hplaced := hm.placed
    rwa [h.target_self, entry, filled_inUse] at hplaced
  have hslot : ∀ k, (m.source k).InUse → ¬ (m.dst = m.cur ∧ k = j) := by
    rintro k hk ⟨hsame, rfl⟩
    have hfree := hm.free
    rw [target_of_eq hsame] at hfree
    exact hfree hk
  have hfound : m.Found i := by
    by_contra hf
    have hgone := hm.gone
    rw [h.source_eq, if_neg (hslot i hm.inUse), sourceAfter, if_neg hf] at hgone
    exact hgone hm.inUse
  have hother : ∀ k, m.Found k → k ≠ i → ¬ (m.dst = m.cur ∧ k = j) → Blank (m.source k) := by
    intro k hf hk hkj
    have hsource := hm.source k hk hkj
    rw [h.source_eq, if_neg hkj] at hsource
    exact sourceAfter_eq_iff.mp hsource hf
  have hlast : ∀ k, m.Found k → k ≤ i := by
    obtain ⟨k, hk, hlast, hsaved⟩ := exists_last hfound
    rw [hsaved, saved_inUse] at hentry
    obtain rfl : k = i := by
      by_contra hne
      exact (hother k hk hne (hslot k hentry)).not_inUse hentry
    exact hlast
  have hdest := hm.dest
  rw [h.target_self] at hdest
  exact ⟨hm.slot, hm.inUse, hm.src, hfound, hlast, hother, hn, hm.free,
    _, _, (copied_iff hn.2.1).mpr ⟨rfl, rfl⟩, hdest⟩

/-- The last entry found moves, when the others found are blank. -/
theorem MovesTo.moved {j : Fin 64} (hm : m.MovesTo i j) (h : m.Placed s' n) (hn : m.Goes n) :
    m.Moved s' i j := by
  obtain rfl : j = n := hm.goes.unique hn
  have hsaved := saved_of_last hm.found hm.last
  have hself : tableAt s' m.dst j =
      (m.target j).filled (m.source i).saved (dest_name m.dest) (dest_ext m.dest) := by
    rw [h.target_self, entry, hsaved]
  have hslot : ¬ (m.dst = m.cur ∧ i = j) := by
    rintro ⟨hsame, rfl⟩
    have hfree := hm.free
    rw [target_of_eq hsame] at hfree
    exact hfree hm.inUse
  have hafter : ∀ k, k ≠ i → ¬ (m.dst = m.cur ∧ k = j) → m.sourceAfter k = m.source k := fun k hk hkj =>
    sourceAfter_eq_iff.mpr fun hf => hm.other k hf hk hkj
  refine ⟨hm.slot, hm.inUse, hm.src, ?_, hm.free, ?_, ?_, ?_, ?_, ?_, ?_, ?_⟩
  · rw [h.source_eq, if_neg hslot, sourceAfter, if_pos hm.found]
    exact not_inUse_cleared _
  · rw [hself, filled_inUse, saved_inUse]
    exact hm.inUse
  · obtain ⟨name, ext, hcopied, hnamed⟩ := hm.dest
    obtain ⟨rfl, rfl⟩ := (copied_iff hn.2.1).mp hcopied
    rw [hself]
    exact hnamed
  · rw [hself]
    rfl
  · rw [hself, filled_cluster]
  · rw [hself]
    rfl
  · intro k hk hkj
    rw [h.source_eq, if_neg hkj, hafter k hk hkj]
  · intro k hk hki
    rw [h.target_of_ne hk]
    by_cases hsame : m.dst = m.cur
    · rw [targetAfter_of_eq hsame, target_of_eq hsame]
      exact hafter k (fun h => hki ⟨hsame, h⟩) fun h => hk h.2
    · rw [targetAfter_of_ne hsame]

end Placed

/-! ## Every run -/

/-- **Exactly when `mv` conserves entries.** -/
theorem conserved_iff {text : Option String} {s' : Fs} (h : m.Runs text s') :
    m.Conserved s' ↔ m.Conserves := by
  rcases emvi_cases h with ⟨hr, rfl⟩ | ⟨hr, hnone, ht⟩ | ⟨hr, n, hn, hp⟩
  · exact iff_of_true (.inl ⟨rfl, rfl⟩) (.inl hr)
  · rw [ht.conserved_iff, Conserves]
    constructor
    · intro hblank
      exact .inr (.inl ⟨fun k hk _ => hblank k hk, fun n hn => absurd hn (hnone n)⟩)
    · rintro (h | ⟨hblank, -⟩ | ⟨i, n, hm⟩)
      · exact absurd h hr
      · exact fun k hk => hblank k hk fun h => hnone k h.2
      · exact absurd hm.goes (hnone n)
  · rw [Conserved, Conserves, hp.unchanged_iff hn]
    constructor
    · rintro (hu | ⟨i, j, hm⟩)
      · exact .inr (.inl hu)
      · exact .inr (.inr ⟨i, j, hm.movesTo hp hn⟩)
    · rintro (h | hu | ⟨i, j, hm⟩)
      · exact absurd h hr
      · exact .inl hu
      · exact .inr ⟨i, j, hm.moved hp hn⟩

/-- Without a dot in `dest`, the entry found is gone. -/
theorem not_conserves_of_no_dot {i : Fin 64} (hread : Listed m.source (m.st.name 0)) (hpath : m.parseId = 0)
    (hfound : m.Found i) (hinUse : (m.source i).InUse) (hdot : ∀ p, ¬ DotAt m.dest p) : ¬ m.Conserves := by
  have hgoes : ∀ n, ¬ m.Goes n := by
    rintro n ⟨-, ⟨p, hp⟩, -⟩
    exact hdot p hp
  rintro ((⟨hpos, -⟩ | hunread) | ⟨hblank, -⟩ | ⟨j, n, hm⟩)
  · omega
  · exact hunread hread
  · exact (hblank i hfound fun h => hgoes i h.2).not_inUse hinUse
  · exact hgoes n hm.goes

end Move

/-! ## In a new file system -/

/-- `"a"`, `"a.txt"`, `"c"` and `"../c.txt"`. -/
def a_bare : Buffer := cstring [97]
def a_txt : Buffer := cstring [97, 46, 116, 120, 116]
def c_bare : Buffer := cstring [99]
def up_c_txt : Buffer := cstring [46, 46, 47, 99, 46, 116, 120, 116]

/-- The stack of a shell in the root. -/
def rootStack : DirStack where
  dir_stack _ := ROOT_CLUSTER_NUMBER
  dir_name_stack _ := root_name
  dir_stack_index := 1
  pos := Nat.one_pos
  le := by decide

/-- The root once it has a file. -/
theorem boot_firstFile_root : ∃ reply s n x, n ≠ 0 ∧ Step (boot 0) (.write firstFile, reply) s ∧
    reply.code = 0 ∧ ∀ k, tableAt s 2 k =
      if k = n then fileEntry firstFile.name firstFile.ext 5 x
      else if k = 0 then folderEntry root_name 0 2 else 0 := by
  obtain ⟨reply, s, x, hstep, hcode, -, hheld, htable, -⟩ := boot_firstFile_table
  refine ⟨reply, s, 1, x, hheld.slot, hstep, hcode, fun k => ?_⟩
  rw [htable, boot_root]
  simp only [Function.update_apply]
  rfl

/-! ## The command -/

/-- **`mv` conserves entries exactly on the inputs above**; it returns when every entry of the current
directory has `undelete` zero. -/
theorem mv_conserves_iff (s : Fs) (v : Saved) (filename dest : Buffer) (st : DirStack) {k fuel : ℕ}
    (hend : here dest k = 0) (hfuel : k < fuel) :
    ∃ parseId name, destination fuel dest = .ok (parseId, name) ∧
      ((∀ i, (tableAt s (clusterIndex (st.cluster 0)) i).undelete = 0) →
        ∃ text s', emvi fuel v s filename dest st = .ok (text, s')) ∧
      ∀ text s', emvi fuel v s filename dest st = .ok (text, s') →
        ((Move.mk s (here filename) name st parseId v).Conserved s' ↔
          (Move.mk s (here filename) name st parseId v).Conserves) := by
  obtain ⟨⟨parseId, name⟩, hdest⟩ := destination_returns hend hfuel
  refine ⟨parseId, name, hdest, fun hzero => ?_, fun text s' h => ?_⟩
  · obtain ⟨⟨text, s'⟩, h⟩ := emvi_returns v s filename st hend hfuel hzero
    exact ⟨text, s', h⟩
  · exact Move.conserved_iff ⟨fuel, filename, dest, rfl, hdest, h⟩

/-- The stack of a shell in the folder `d` of the root. -/
def folderStack (c : UInt32) : DirStack where
  dir_stack i := if i.val = 0 then ROOT_CLUSTER_NUMBER else c
  dir_name_stack i := if i.val = 0 then root_name else (small 2 100 0).name
  dir_stack_index := 2
  pos := Nat.two_pos
  le := by decide

/-- What a string finds starts with its first character. -/
theorem FoundIn.first {t : FAT32DirectoryTable} {filename : Buffer} {k : Fin 64} (h : FoundIn t filename k) :
    (t k).name 0 = filename 0 := by
  have hname := table_bytes_name t k 0
  unfold FoundIn at h
  rcases hbytes : table_bytes t k with _ | ⟨a, _ | ⟨b, rest⟩⟩
  · rw [hbytes] at hname
    exact absurd hname (by simp)
  · rw [hbytes, strcmp] at h
    split_ifs at h with hne
    exact absurd (char_sub_eq_zero.mp (Option.some.inj h)) hne
  · rw [hbytes] at h hname
    rw [← (strcmp_eq_zero_iff.mp h).1]
    exact (Option.some.inj hname).symm

theorem named_a : Named a_bare ![97, 0, 0, 0, 0, 0, 0, 0] 0 :=
  ⟨[97], [], by decide, by decide, by decide, by decide, by decide, by decide,
    .inr ⟨rfl, by unfold IsString; decide⟩⟩

theorem dotAt_c_txt : DotAt (shift up_c_txt 3) 1 := by
  unfold DotAt
  decide

theorem named_c_txt : Named (shift up_c_txt 3) ![99, 0, 0, 0, 0, 0, 0, 0] ![116, 120, 116] :=
  ⟨[99], [116, 120, 116], by decide, by decide, by decide, by decide, by decide, by decide,
    .inl (by unfold IsString; decide)⟩

theorem copied_c_txt : (∀ i : Fin 8, (![99, 0, 0, 0, 0, 0, 0, 0] : Bytes 8) i =
    if i.val < 1 then shift up_c_txt 3 i else 0) ∧
    ∀ i : Fin 3, (![116, 120, 116] : Bytes 3) i = shift up_c_txt 3 (1 + i + 1) := by decide

section

variable {s : Fs} {c x : UInt32}

/-- The root with one folder has itself, the folder, and free slots. -/
theorem folder_root_slot
    (hroot : tableAt s 2 = Function.update (tableAt (boot 0) 2) 1 (folderEntry (small 2 100 0).name 0 c))
    (k : Fin 64) : tableAt s 2 k = if k = 1 then folderEntry (small 2 100 0).name 0 c
      else if k = 0 then folderEntry root_name 0 2 else 0 := by
  rw [hroot, boot_root]
  simp only [Function.update_apply]
  rfl

theorem folder_root_free
    (hroot : tableAt s 2 = Function.update (tableAt (boot 0) 2) 1 (folderEntry (small 2 100 0).name 0 c)) :
    FirstFree (tableAt s 2) 2 := by
  refine ⟨?_, fun k hk => ?_⟩
  · rw [folder_root_slot hroot]
    exact not_inUse_zero
  · have hk : k.val < 2 := hk
    rw [folder_root_slot hroot]
    split_ifs with h1 h0
    · rfl
    · rfl
    · have hk1 : k.val ≠ 1 := fun h => h1 (Fin.ext h)
      exact absurd (Fin.ext (by omega) : k = 0) h0

/-- In a folder `d` with the file `a` only, the string `"a"` finds nothing but the file. -/
theorem found_in_folder (hd : FirstFolder s 100 c) (hzero : ∀ j, j ≠ 0 → j ≠ 1 → tableAt s c.toNat j = 0)
    {k : Fin 64} (hk : FoundIn (tableAt s c.toNat) a_bare k) : k = 1 := by
  have hfirst := hk.first
  by_contra h1
  by_cases h0 : k = 0
  · rw [h0, hd.self] at hfirst
    exact absurd (show (100 : UInt8) = 97 from hfirst) (by decide)
  · rw [hzero k h0 h1] at hfirst
    exact absurd (show (0 : UInt8) = 97 from hfirst) (by decide)

/-- In that folder `"a"` finds the file, and `"../c.txt"` has room in the root. -/
theorem folder_file_moves (v : Saved) (hd : FirstFolder s 100 c)
    (hroot : tableAt s 2 = Function.update (tableAt (boot 0) 2) 1 (folderEntry (small 2 100 0).name 0 c))
    (hentry : tableAt s c.toNat 1 = fileEntry (small c 97 1).name 0 1 x)
    (hzero : ∀ j, j ≠ 0 → j ≠ 1 → tableAt s c.toNat j = 0) :
    (Move.mk s a_bare (shift up_c_txt 3) (folderStack c) 1 v).MovesTo 1 2 := by
  have hcur : (Move.mk s a_bare (shift up_c_txt 3) (folderStack c) 1 v).cur = c.toNat :=
    clusterIndex_of_lt hd.bounds.2
  have hdst : (Move.mk s a_bare (shift up_c_txt 3) (folderStack c) 1 v).dst = 2 := rfl
  have hc := hd.bounds.1
  have htarget : (Move.mk s a_bare (shift up_c_txt 3) (folderStack c) 1 v).targetAfter = tableAt s 2 :=
    Move.targetAfter_of_ne (by omega)
  have hsource : (Move.mk s a_bare (shift up_c_txt 3) (folderStack c) 1 v).source = tableAt s c.toNat := by
    rw [Move.source, hcur]
  have hfound : ∀ k, (Move.mk s a_bare (shift up_c_txt 3) (folderStack c) 1 v).Found k → k = 1 := by
    intro k hk
    rw [Move.Found, hsource] at hk
    exact found_in_folder hd hzero hk
  have hlisted : Listed (tableAt s 2) root_name := listed_root_entry (folder_root_slot hroot 0)
  have hfile : FoundIn (tableAt s c.toNat) a_bare 1 := by
    apply foundIn_of_first
    · rw [hentry]
      rfl
    · rw [hentry]
      rfl
  exact
    { slot := by decide
      inUse := by rw [hsource, hentry]; rfl
      src := by rw [hsource, hentry]; exact named_a
      found := by rw [Move.Found, hsource]; exact hfile
      last := fun k hk => (hfound k hk).le
      other := fun k hk h1 => absurd (hfound k hk) h1
      goes := by rw [Move.Goes, htarget]; exact ⟨hlisted, ⟨1, dotAt_c_txt⟩, folder_root_free hroot⟩
      free := by rw [Move.target, hdst]; exact (folder_root_free hroot).1
      dest := ⟨_, _, ⟨1, dotAt_c_txt, copied_c_txt⟩, named_c_txt⟩ }

end

/-- `mv a ../c.txt` in a folder of the root. -/
theorem mv_conserves_up : ∃ es s c text s', Run Step (boot 0) es s ∧
    emvi 10 ⟨0, 0, 0, 0, 0⟩ s a_bare up_c_txt (folderStack c) = .ok (text, s') ∧
      (Move.mk s a_bare (shift up_c_txt 3) (folderStack c) 1 ⟨0, 0, 0, 0, 0⟩).MovesTo 1 2 ∧
      (Move.mk s a_bare (shift up_c_txt 3) (folderStack c) 1 ⟨0, 0, 0, 0, 0⟩).Conserved s' := by
  obtain ⟨es, s, c, x, hrun, hd, hroot, -, hentry, hzero, -⟩ := boot_folder_file
  have hmoves := folder_file_moves ⟨0, 0, 0, 0, 0⟩ hd hroot hentry hzero
  obtain ⟨parseId, name, hdest, hreturns, hiff⟩ := mv_conserves_iff s ⟨0, 0, 0, 0, 0⟩ a_bare up_c_txt
    (folderStack c) (show here up_c_txt 8 = 0 from rfl) (show 8 < 10 by decide)
  have hup : destination 10 up_c_txt = .ok (1, shift up_c_txt 3) := rfl
  obtain ⟨rfl, rfl⟩ := Prod.mk.inj (Except.ok.inj (hdest.symm.trans hup))
  obtain ⟨text, s', h⟩ := hreturns fun k => by
    rw [show clusterIndex ((folderStack c).cluster 0) = c.toNat from clusterIndex_of_lt hd.bounds.2]
    by_cases h0 : k = 0
    · rw [h0, hd.self]
      rfl
    · by_cases h1 : k = 1
      · rw [h1, hentry]
        rfl
      · rw [hzero k h0 h1]
        rfl
  exact ⟨es, s, c, text, s', hrun, h, hmoves, (hiff text s' h).mpr (.inr (.inr ⟨1, 2, hmoves⟩))⟩

/-- `mv a.txt c` in the root: the file is gone. -/
theorem mv_loses_file : ∃ reply s, Run Step (boot 0) [(.write firstFile, reply)] s ∧ reply.code = 0 ∧
    ∃ text s', emvi 10 ⟨0, 0, 0, 0, 0⟩ s a_txt c_bare rootStack = .ok (text, s') ∧
      ¬ (Move.mk s a_txt c_bare rootStack 0 ⟨0, 0, 0, 0, 0⟩).Conserved s' := by
  obtain ⟨reply, s, n, x, hn, hstep, hcode, htable⟩ := boot_firstFile_root
  have hroot : tableAt s 2 0 = folderEntry root_name 0 2 := by
    rw [htable, if_neg hn.symm, if_pos rfl]
  have hfile : tableAt s 2 n = fileEntry firstFile.name firstFile.ext 5 x := by
    rw [htable, if_pos rfl]
  obtain ⟨⟨text, s'⟩, h⟩ := emvi_returns ⟨0, 0, 0, 0, 0⟩ s a_txt rootStack (show here c_bare 1 = 0 from rfl)
    (show 1 < 10 by decide) fun k => by
      show (tableAt s 2 k).undelete = 0
      rw [htable]
      split_ifs <;> rfl
  refine ⟨reply, s, .single hstep, hcode, text, s', h, fun hconserved => ?_⟩
  rw [Move.conserved_iff ⟨10, _, _, rfl, rfl, h⟩] at hconserved
  refine Move.not_conserves_of_no_dot (i := n) ?_ rfl ?_ ?_ ?_ hconserved
  · exact listed_root_entry hroot
  · show FoundIn (tableAt s 2) a_txt n
    apply foundIn_of_first
    · rw [hfile]
      rfl
    · rw [hfile]
      rfl
  · show (tableAt s 2 n).InUse
    rw [hfile]
    rfl
  · rintro p ⟨-, hp, -⟩
    have hp : [99].getD p (0 : UInt8) = 46 := hp
    cases p with
    | zero => exact absurd hp (by decide)
    | succ p => exact absurd hp (by simp)

end KeropOS
