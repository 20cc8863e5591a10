import KeropOS.Shell.Session
import KeropOS.System.Listing

/-!
# The command `ls`

`eles` of `user-shell.c`, which shows the entries of the directory on top of the stack.

* `eles`: the code; **`eles_eq`**: what it shows;
* `TidyStep`: the sessions that keep to the rules of the files;
* **`ls_lists`**: it shows what the file map has in the directory.
-/

namespace KeropOS

open Packed Transition

open Screen (Terminal putchar show_chars)

/-! ## The code -/

/-- The request for the table: the name of the directory, in the one below it on the stack. -/
def list_request (st : DirStack) : FAT32DriverRequest where
  buf := fun _ => 0
  name := st.name 0
  ext := 0
  parent_cluster_number := if st.dir_stack_index ≤ 1 then ROOT_CLUSTER_NUMBER else st.cluster 1
  buffer_size := 0

/-- `ext_name`, with its zero behind the extension. -/
def ext_name (ext : Bytes 3) : Buffer := cstring (List.ofFn ext)

/-- One entry, with a blank behind it. -/
def put_entry (t : Terminal) (e : FAT32DirectoryEntry) : Terminal :=
  let filename := cstring (List.ofFn e.name)
  let t :=
    if e.attr = ATTR_ARCHIVE then
      let t := Screen.puts t filename 8 WHITE
      if ext_name e.ext 0 ≠ 0 then
        let t := putText t "." 1 WHITE
        Screen.puts t (ext_name e.ext) 3 WHITE
      else t
    else Screen.puts t filename 8 LIGHT_PURPLE
  putText t " " 1 WHITE

/-- `eles`. -/
def eles (s : Fs) (st : DirStack) (t : Terminal) : Terminal :=
  let now_table := tableLayout.decode (read_clusters s.disk (st.cluster 0))
  let t :=
    if (read_directory s (list_request st)).1 = 0 then
      (List.finRange 64).tail.foldl (fun t i =>
        if (now_table i).user_attribute = UATTR_NOT_EMPTY then put_entry t (now_table i) else t) t
    else putText t "ERROR!\n" 7 RED
  putText t "\n" 1 WHITE

/-! ## What is shown -/

/-- The characters of a field; zeros do not show. -/
def visible {k : ℕ} (b : Bytes k) : List UInt8 := (List.ofFn b).filter (· ≠ 0)

/-- The extension with its dot, if there is one. -/
def dotted (ext : Bytes 3) : List UInt8 := if ext_name ext 0 ≠ 0 then 46 :: visible ext else []

/-- What is shown for a file or a folder. -/
def entryText (key : Key) : Node → List (UInt8 × UInt8)
  | .file _ => coloured (visible key.name ++ dotted key.ext) WHITE ++ coloured [32] WHITE
  | .folder => coloured (visible key.name) LIGHT_PURPLE ++ coloured [32] WHITE

variable {s : Fs} {st : DirStack} {t : Terminal} {textcolor : UInt8} {i : Fin 64} {p : ℕ}

/-- Zeros do not show. -/
theorem show_chars_filter (t : Terminal) (text : List UInt8) :
    show_chars t (coloured text textcolor) = show_chars t (coloured (text.filter (· ≠ 0)) textcolor) := by
  induction text generalizing t with
  | nil => rfl
  | cons c text ih =>
    by_cases hc : c = 0
    · rw [List.filter_cons_of_neg (by simpa using hc), ← ih, hc]
      exact congrArg (fun t => show_chars t (coloured text textcolor)) (show_chars_null t 1 textcolor)
    · rw [List.filter_cons_of_pos (by simpa using hc)]
      exact ih _

theorem coloured_append (a b : List UInt8) :
    coloured (a ++ b) textcolor = coloured a textcolor ++ coloured b textcolor :=
  List.map_append

theorem puts_field {k : ℕ} (t : Terminal) (b : Bytes k) {length : UInt8} (h : k ≤ length.toNat) :
    Screen.puts t (cstring (List.ofFn b)) length textcolor =
      show_chars t (coloured (visible b) textcolor) := by
  rw [puts_cstring (by rwa [List.length_ofFn]), show_chars_filter]
  rfl

/-- Entry `i` of `p` as the map has it. -/
def entryAt (s : Fs) (p : ℕ) (i : Fin 64) : Key := ⟨p, (tableAt s p i).name, (tableAt s p i).ext⟩

theorem put_entry_eq {node : Node} (hs : Inv s) (hp : Held s p i) (hnode : Holds s p i node) :
    put_entry t (tableAt s p i) = show_chars t (entryText (entryAt s p i) node) := by
  have hdot : ∀ t, putText t "." 1 WHITE = show_chars t (coloured [46] WHITE) :=
    fun t => putText_eq (by decide)
  have hblank : ∀ t, putText t " " 1 WHITE = show_chars t (coloured [32] WHITE) :=
    fun t => putText_eq (by decide)
  cases node with
  | folder =>
    have hattr : (tableAt s p i).attr ≠ ATTR_ARCHIVE := by
      rw [show (tableAt s p i).attr = ATTR_SUBDIRECTORY from hnode]
      decide
    rw [put_entry]
    dsimp only
    rw [if_neg hattr, puts_field _ _ (by decide), hblank, entryText, show_chars_append]
    rfl
  | file bytes =>
    have hattr : (tableAt s p i).attr = ATTR_ARCHIVE := by
      obtain ⟨l, hl⟩ := hs.sound hp
      rcases hl.kind with hf | hd
      · rw [hf.eq]
        rfl
      · exact absurd hd.attr hnode.1
    have hname : (entryAt s p i).name = (tableAt s p i).name := rfl
    have hext : (entryAt s p i).ext = (tableAt s p i).ext := rfl
    rw [put_entry, entryText, dotted, hname, hext]
    dsimp only
    rw [if_pos hattr, hblank, show_chars_append, coloured_append, show_chars_append]
    by_cases h0 : ext_name (tableAt s p i).ext 0 ≠ 0
    · rw [if_pos h0, if_pos h0, hdot, ext_name, puts_field _ _ (by decide), puts_field _ _ (by decide)]
      rfl
    · rw [if_neg h0, if_neg h0, puts_field _ _ (by decide)]
      rfl

/-- The loop over the slots. -/
theorem eles_loop (slots : List (Fin 64)) (table : FAT32DirectoryTable) (text : Fin 64 → List (UInt8 × UInt8))
    (h : ∀ i ∈ slots, (table i).InUse → ∀ t, put_entry t (table i) = show_chars t (text i)) (t : Terminal) :
    slots.foldl (fun t i =>
      if (table i).user_attribute = UATTR_NOT_EMPTY then put_entry t (table i) else t) t =
      show_chars t ((slots.filter fun i => (table i).InUse).flatMap text) := by
  induction slots generalizing t with
  | nil => rfl
  | cons i slots ih =>
    have hrest := ih fun j hj => h j (List.mem_cons_of_mem _ hj)
    rw [List.foldl_cons]
    by_cases huse : (table i).InUse
    · have hslot : (table i).user_attribute = UATTR_NOT_EMPTY := huse
      rw [if_pos hslot, h i (List.mem_cons_self ..) huse, List.filter_cons_of_pos (by simpa using huse),
        List.flatMap_cons, show_chars_append]
      exact hrest _
    · have hslot : (table i).user_attribute ≠ UATTR_NOT_EMPTY := huse
      rw [if_neg hslot, List.filter_cons_of_neg (by simpa using huse)]
      exact hrest t

/-- The table of the directory is read. -/
theorem list_request_code (hs : Inv s) (hroot : RootSelf s) (hst : ValidStack s st) :
    (read_directory s (list_request st)).1 = 0 := by
  rw [read_directory_code]
  have hpos := st.pos
  have hle := st.le
  by_cases hone : st.dir_stack_index ≤ 1
  · have hzero : (st.slot 0).val = 0 := by
      unfold DirStack.slot
      simp only
      omega
    have hname : (list_request st).name = root_name := hst.rootName _ hzero
    have hparent : clusterIndex (list_request st).parent_cluster_number = 2 := by
      rw [list_request]
      dsimp only
      rw [if_pos hone]
      rfl
    rw [hname, hparent]
    exact listed_root hroot
  · have hparent : (list_request st).parent_cluster_number = st.cluster 1 := if_neg hone
    rw [hparent, hst.clusterIndex hs]
    have hslots : (st.slot 1).val + 1 = (st.slot 0).val := by
      unfold DirStack.slot
      simp only
      omega
    obtain ⟨i, hi, hname⟩ := hst.trail _ _ hslots (ValidStack.slot_lt st 0)
    have hlisted := hi.listed_above hs hroot
    rw [hname] at hlisted
    exact hlisted

/-- **What `ls` shows.** -/
theorem eles_eq {node : Fin 64 → Node} (hs : Inv s) (hroot : RootSelf s) (hst : ValidStack s st)
    (hnode : ∀ i, Held s (st.cluster 0).toNat i → Holds s (st.cluster 0).toNat i (node i)) (t : Terminal) :
    eles s st t = show_chars t
      (((List.finRange 64).tail.filter fun i => (tableAt s (st.cluster 0).toNat i).InUse).flatMap
        (fun i => entryText (entryAt s (st.cluster 0).toNat i) (node i)) ++ coloured [10] WHITE) := by
  have htable : tableLayout.decode (read_clusters s.disk (st.cluster 0)) =
      tableAt s (st.cluster 0).toNat := by
    rw [read_clusters_eq, hst.clusterIndex hs, tableAt]
  have hline : ∀ t, putText t "\n" 1 WHITE = show_chars t (coloured [10] WHITE) :=
    fun t => putText_eq (by decide)
  rw [eles]
  simp only [htable]
  rw [if_pos (list_request_code hs hroot hst), eles_loop _ _ _ (fun i hi huse t => ?_), hline,
    show_chars_append]
  have hp : Held s (st.cluster 0).toNat i := ⟨hst.cluster_live 0, mem_slots.mp hi, huse⟩
  exact put_entry_eq hs hp (hnode i hp)

/-- **`ls` lists the directory.** It shows each file and folder that the file map has in the directory on top
of the stack once, and nothing else, in every tidy session on files that any calls and power cycles have left. -/
theorem ls_lists (d : Disk) (es : List CycleEvent) (s₀ : Fs) (uninitialised : Fin 16 → UInt32)
    (events : List SessionEvent) (s : Fs) (st : DirStack) (t : Terminal) (hd : is_empty_storage d = true)
    (hes : Run CycleStep (mount d) es s₀) (h : Run TidyStep (s₀, shellStack uninitialised) events (s, st)) :
    ∃ (m : FileMap) (entries : List (Key × Node)), Run MapStep (fun _ => none)
        (es.filterMap CycleEvent.call? ++ events.filterMap SessionEvent.call?) m ∧
      (entries.map Prod.fst).Nodup ∧
      (∀ key node, (key, node) ∈ entries ↔ key.parent = (st.cluster 0).toNat ∧ m key = some node) ∧
      eles s st t =
        show_chars t (entries.flatMap (fun entry => entryText entry.1 entry.2) ++ coloured [10] WHITE) := by
  have hrun := hes.append (files_session h)
  obtain ⟨-, -, ⟨hs₀, -⟩, -⟩ := tracks_of_cycles hd hes
  obtain ⟨m, hmap, ⟨hs, -⟩, hm⟩ := tracks_of_cycles hd hrun
  have hroot := rootSelf_of_cycles hd hrun
  have hst : ValidStack s st := valid_session h hs₀ (validStack_shellStack s₀ uninitialised)
  have hcalls : (es ++ (events.filterMap SessionEvent.call?).map CycleEvent.call).filterMap CycleEvent.call? =
      es.filterMap CycleEvent.call? ++ events.filterMap SessionEvent.call? := by
    rw [List.filterMap_append, filterMap_call]
  rw [hcalls] at hmap
  have hexists : ∀ i, ∃ node, Held s (st.cluster 0).toNat i → Holds s (st.cluster 0).toNat i node := by
    intro i
    by_cases hp : Held s (st.cluster 0).toNat i
    · obtain ⟨node, hnode⟩ := exists_holds hs hp
      exact ⟨node, fun _ => hnode⟩
    · exact ⟨.folder, fun h => absurd h hp⟩
  choose node hnode using hexists
  have hslot : ∀ {i}, i ∈ (List.finRange 64).tail.filter (fun i => (tableAt s (st.cluster 0).toNat i).InUse) ↔
      Held s (st.cluster 0).toNat i := by
    intro i
    rw [List.mem_filter, mem_slots, decide_eq_true_iff]
    exact ⟨fun hi => ⟨hst.cluster_live 0, hi.1, hi.2⟩, fun hp => ⟨hp.slot, hp.inUse⟩⟩
  refine ⟨m, ((List.finRange 64).tail.filter fun i => (tableAt s (st.cluster 0).toNat i).InUse).map fun i =>
    (entryAt s (st.cluster 0).toNat i, node i), hmap, ?_, fun key n => ?_, ?_⟩
  · rw [List.map_map]
    refine List.Nodup.map_on (fun i hi j hj hij => ?_) (((List.nodup_finRange 64).tail).filter _)
    exact hs.names (hslot.mp hi) (hslot.mp hj) (congrArg Key.name hij)
  · rw [List.mem_map, hm key n]
    constructor
    · rintro ⟨i, hi, heq⟩
      obtain ⟨rfl, rfl⟩ := Prod.mk.inj heq
      exact ⟨rfl, i, hslot.mp hi, rfl, rfl, hnode i (hslot.mp hi)⟩
    · rintro ⟨hparent, i, hp, hname, hext, hholds⟩
      rw [hparent] at hp hname hext hholds
      refine ⟨i, hslot.mpr hp, Prod.mk.injEq .. ▸ ⟨?_, (hnode i hp).unique hholds⟩⟩
      cases key
      rw [entryAt, Key.mk.injEq]
      exact ⟨hparent.symm, hname, hext⟩
  · rw [eles_eq hs hroot hst hnode, List.flatMap_map]

/-- `ls` after `mkdir a`. -/
theorem ls_lists_folder : ∃ reply s, Step (mount 0) (.write (small 2 97 0), reply) s ∧
    ∀ t, eles s (shellStack 0) t = show_chars t
      ((coloured [97] LIGHT_PURPLE ++ coloured [32] WHITE) ++ coloured [10] WHITE) := by
  obtain ⟨reply, s, c, hstep, hcode, -⟩ := boot_folder 0 97 (by decide)
  rw [← mount_unformatted is_empty_storage_zero] at hstep
  refine ⟨reply, s, hstep, fun t => ?_⟩
  have hname : (small 2 97 0).name ≠ 0 := small_name_ne_zero (by decide)
  have htidy : TidyStep (mount 0, shellStack 0) (.call (.write (small 2 97 0), reply)) (s, shellStack 0) := by
    refine ⟨sessionStep_call hstep, trivial, fun event he => ?_⟩
    obtain rfl := Option.some.inj he
    exact ⟨trivial, hname⟩
  obtain ⟨m, entries, hmap, hnodup, hmem, hls⟩ :=
    ls_lists 0 [] (mount 0) 0 _ s (shellStack 0) t is_empty_storage_zero .nil
    (.single htidy)
  obtain ⟨m₁, hm₁, hlast⟩ := Run.snoc_iff.mp (show Run MapStep (fun _ => none) ([] ++ [_]) m from hmap)
  obtain rfl := Run.nil_iff.mp hm₁
  have hm : m = Function.update (fun _ => none) ⟨2, (small 2 97 0).name, 0⟩ (some .folder) := by
    cases hlast with
    | made _ _ => rfl
    | refused h => exact absurd hcode h
  have hone : entries = [(⟨2, (small 2 97 0).name, 0⟩, .folder)] := by
    rw [← List.perm_singleton, List.perm_ext_iff_of_nodup hnodup.of_map (List.nodup_singleton _)]
    rintro ⟨key, node⟩
    rw [hmem, List.mem_singleton, hm, Prod.mk.injEq]
    constructor
    · rintro ⟨-, hkey⟩
      by_cases he : key = ⟨2, (small 2 97 0).name, 0⟩
      · rw [he, Function.update_self] at hkey
        exact ⟨he, (Option.some.inj hkey).symm⟩
      · rw [Function.update_of_ne he] at hkey
        exact absurd hkey (by simp)
    · rintro ⟨rfl, rfl⟩
      exact ⟨rfl, Function.update_self ..⟩
  have hvisible : visible (small 2 97 0).name = [97] := by decide
  rw [hls, hone, List.flatMap_singleton, entryText, hvisible]

end KeropOS
