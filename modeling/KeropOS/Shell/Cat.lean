import KeropOS.Shell.Files

/-!
# What `cat` prints

The size is that of the first entry that passes for the file, the bytes are those of the file, and
`fileBuff` is one cluster.

* `Prints`: `ket` prints these characters, and returns;
* **`print_file_iff`**: the second half of `ket`; `ket_eq`: the first half;
* **`cat_prints_iff`**: when the bytes of the file are printed.
-/

namespace KeropOS

open Packed Linked Transition

/-- `ket` returns, and the characters printed are these. -/
def Prints (result : Except Trap Printed) (bytes : List UInt8) : Prop :=
  ∃ out, result = .ok out ∧ out.chars = bytes

/-- Entry `k` is the first that passes for the text file `name`. -/
def FirstPasses (t : FAT32DirectoryTable) (name : Bytes 8) (k : Fin 64) : Prop :=
  PassesFor t name k ∧ ∀ j < k, ¬ PassesFor t name j

variable {s : Fs} {st : DirStack} {n : List UInt8} {i k : Fin 64} {l : List ℕ} {fileBuff behind : Buffer}
    {fuel : ℕ}

/-- The request for the bytes. -/
def text_request (fileBuff : Buffer) (st : DirStack) (n : List UInt8) (filesize : UInt32) :
    FAT32DriverRequest where
  buf := fileBuff
  name := padded n
  ext := ![116, 120, 116]
  parent_cluster_number := st.cluster 0
  buffer_size := filesize

theorem text_request_size (filesize : UInt32) :
    (text_request fileBuff st n filesize).buffer_size = filesize := rfl

theorem FileHere.names (h : FileHere s st n text i l) (fileBuff : Buffer) (filesize : UInt32) :
    Names s (text_request fileBuff st n filesize) i := by
  refine ⟨h.held, h.name, h.ext.trans ?_⟩
  funext j
  match j with
  | 0 | 1 | 2 => rfl

/-- With the size of the file, `read` copies the whole chain, when it fits a cluster. -/
theorem FileHere.read_into (h : FileHere s st n text i l) (hs : Inv s) (fileBuff : Buffer) {filesize : UInt32}
    (hsize : filesize = (tableAt s (st.cluster 0).toNat i).filesize) :
    read_into 2048 s (text_request fileBuff st n filesize) =
      if 2048 < l.length * 2048 then .error .outOfBounds
      else .ok (0, copyChain s.disk l l.length 0 fileBuff) := by
  have hfile := h.isFile hs
  have hne : (text_request fileBuff st n filesize).buffer_size ≠ 0 := by
    rw [text_request_size, hsize]
    exact hfile.size.ne_zero
  have hall : copied (text_request fileBuff st n filesize) l = l.length := hfile.copied hsize
  have hfull : (text_request fileBuff st n filesize).buffer_size.toNat / 2048 ≤ l.length := by
    obtain ⟨hpos, hmax⟩ := hfile.size
    rw [hfile.cells, text_request_size, hsize, clustersFor]
    omega
  have hread := read_named hs.wellFormed h.token.padded_ne_zero hne (h.names fileBuff filesize)
    (h.sound hs).ownChain
  rw [hall, if_pos hfull] at hread
  rw [read_into_named hs.wellFormed h.token.padded_ne_zero hne (h.names fileBuff filesize)
    (h.sound hs).ownChain 2048, hall, hread]
  rfl

/-- As many bytes are printed as the size says. -/
theorem Prints.filesize_eq {name : Bytes 8} {parent filesize : UInt32} {p : ℕ}
    (h : Prints (print_file fileBuff s name parent filesize) (fileBytes s p i l))
    (hpos : 0 < (tableAt s p i).filesize.toNat) : filesize = (tableAt s p i).filesize := by
  obtain ⟨out, hout, hchars⟩ := h
  have hlen := congrArg List.length hchars
  rw [length_fileBytes] at hlen
  rw [print_file] at hout
  split at hout
  · exact absurd hout (by simp)
  · split_ifs at hout
    · obtain rfl := Except.ok.inj hout
      rw [List.length_map, List.length_range] at hlen
      exact UInt32.toNat_inj.mp hlen
    · obtain rfl := Except.ok.inj hout
      rw [List.length_nil] at hlen
      omega

/-- **The second half of `ket`** prints the file when the size is that of the file, and fits a cluster. -/
theorem print_file_iff (h : FileHere s st n text i l) (hs : Inv s) (fileBuff : Buffer) (filesize : UInt32) :
    Prints (print_file fileBuff s (padded n) (st.cluster 0) filesize) (fileBytes s (st.cluster 0).toNat i l) ↔
      (tableAt s (st.cluster 0).toNat i).filesize.toNat ≤ 2048 ∧
        filesize = (tableAt s (st.cluster 0).toNat i).filesize := by
  have hfile := h.isFile hs
  have hcells := hfile.cells
  obtain ⟨hpos, hmax⟩ := hfile.size
  by_cases hsize : filesize = (tableAt s (st.cluster 0).toNat i).filesize
  · have hinto := h.read_into hs fileBuff hsize
    unfold text_request at hinto
    rw [print_file, hinto]
    by_cases hfits : 2048 < l.length * 2048
    · rw [if_pos hfits]
      refine iff_of_false ?_ fun hle => ?_
      · rintro ⟨out, hout, -⟩
        exact absurd hout (by simp)
      · rw [hcells, clustersFor] at hfits
        omega
    · rw [if_neg hfits]
      refine iff_of_true ⟨_, rfl, ?_⟩ ⟨?_, hsize⟩
      · rw [hsize]
        exact copyChain_firstBytes s.disk hcells fileBuff
      · rw [hcells, clustersFor] at hfits
        omega
  · exact iff_of_false (fun hprints => hsize (hprints.filesize_eq hpos)) fun hle => hsize hle.2

/-- The name and the extension are those of a text file. -/
theorem strcmp_txt_token (n : List UInt8) :
    strcmp txt (shift (typed (tokenText n text) behind) (n.length + 1)) = some 0 := by
  have hat : ∀ j : Fin 3, shift (typed (tokenText n text) behind) (n.length + 1) j =
    (padded text : Bytes 3) j := by
    intro j
    rw [shift, typed_of_lt (by rw [length_tokenText, text]; simp), tokenText,
      List.getD_append_right _ _ _ _ (by omega), padded]
    have hj : n.length + 1 + j.val - n.length = j.val + 1 := by omega
    rw [hj, List.getD_cons_succ]
  exact strcmp_txt.mpr ⟨hat 0, hat 1, hat 2⟩

/-- **The first half of `ket`.** -/
theorem ket_eq (hs : Inv s) (hroot : RootSelf s) (hst : ValidStack s st) (h : Token n text) :
    ket fuel fileBuff s (typed (tokenText n text) behind) st =
      match Fin.find? fun k => decide (PassesFor (tableAt s (st.cluster 0).toNat) (padded n) k) with
      | none => .ok ⟨[], puts "FILE NOT FOUND\n" 15⟩
      | some k =>
        print_file fileBuff s (padded n) (st.cluster 0) (tableAt s (st.cluster 0).toNat k).filesize := by
  have hcode := hst.read_directory_code hs hroot 0
  have htable : tableLayout.decode (read_clusters s.disk (st.cluster 0)) =
    tableAt s (st.cluster 0).toNat := by
    rw [read_clusters_eq, hst.clusterIndex hs, tableAt]
  rw [ket, (h.destination fuel).2]
  simp only [lt_irrefl, false_and, if_false, hcode, ne_eq, not_true_eq_false, h.name_length,
    not_lt.mpr h.name_le, strcmp_txt_token n, htable, realFileName, h.dest_name, find_text_eq]
  rcases Fin.find? fun k => decide (PassesFor (tableAt s (st.cluster 0).toNat) (padded n) k) with _ | k
  · rfl
  · rfl

theorem prints_iff (hs : Inv s) (hroot : RootSelf s) (hst : ValidStack s st) (h : FileHere s st n text i l) :
    Prints (ket fuel fileBuff s (typed (tokenText n text) behind) st) (fileBytes s (st.cluster 0).toNat i l) ↔
      (tableAt s (st.cluster 0).toNat i).filesize.toNat ≤ 2048 ∧
        ∃ k, FirstPasses (tableAt s (st.cluster 0).toNat) (padded n) k ∧
          (tableAt s (st.cluster 0).toNat k).filesize = (tableAt s (st.cluster 0).toNat i).filesize := by
  have hfirst : ∀ k,
      (Fin.find? fun k => decide (PassesFor (tableAt s (st.cluster 0).toNat) (padded n) k)) = some k ↔
        FirstPasses (tableAt s (st.cluster 0).toNat) (padded n) k := fun k => by
    rw [Fin.find?_eq_some_iff, FirstPasses]
    simp only [decide_eq_true_eq, decide_eq_false_iff_not]
  rw [ket_eq hs hroot hst h.token]
  split
  · rename_i hnone
    refine iff_of_false ?_ ?_
    · rintro ⟨out, hout, hchars⟩
      obtain rfl := Except.ok.inj hout
      have hpos := (h.isFile hs).size.1
      have hlen := congrArg List.length hchars
      rw [length_fileBytes, List.length_nil] at hlen
      omega
    · rintro ⟨-, k, hk, -⟩
      rw [(hfirst k).mpr hk] at hnone
      exact absurd hnone (by simp)
  · rename_i k hk
    rw [print_file_iff h hs]
    refine and_congr_right fun _ => ⟨fun hsize => ⟨k, (hfirst k).mp hk, hsize⟩, ?_⟩
    rintro ⟨k', hk', hsize⟩
    have := (hfirst k').mpr hk'
    rw [hk] at this
    rw [Option.some.inj this]
    exact hsize

/-- **When `cat` prints a text file**: it is no longer than a cluster, and the first entry that passes for it
has its size. -/
theorem cat_prints_iff (d : Disk) (es : List (FAT32DirectoryTable × Call × Reply)) (s : Fs)
    (hrun : Run StepOn (boot d) es s) (hclean : ∀ e ∈ es, CleanStack e) (st : DirStack)
    (hst : ValidStack s st)
    (n : List UInt8) (i : Fin 64) (l : List ℕ) (h : FileHere s st n text i l) (fuel : ℕ)
    (fileBuff behind : Buffer) :
    Prints (ket fuel fileBuff s (typed (tokenText n text) behind) st) (fileBytes s (st.cluster 0).toNat i l) ↔
      (tableAt s (st.cluster 0).toNat i).filesize.toNat ≤ 2048 ∧
        ∃ k, FirstPasses (tableAt s (st.cluster 0).toNat) (padded n) k ∧
          (tableAt s (st.cluster 0).toNat k).filesize = (tableAt s (st.cluster 0).toNat i).filesize := by
  obtain ⟨hs, hroot⟩ := rootSelf_of_runOn hrun hclean
  exact prints_iff hs hroot hst h

/-- No other slot of the root passes. -/
theorem passes_slot_one {c : UInt32} (htable : tableAt s 2 =
    Function.update (tableAt (boot 0) 2) 1 (fileEntry (padded n) (padded text) 1 c))
    (h : PassesFor (tableAt s 2) (padded n) k) : k = 1 := by
  by_contra hk
  have hext := h.1
  rw [htable, Function.update_of_ne hk] at hext
  by_cases h0 : k = 0
  · rw [h0, boot_root, Function.update_self] at hext
    exact absurd (congrFun hext 0) (by decide)
  · rw [boot_slot 0 h0] at hext
    exact absurd (congrFun hext 0) (by decide)

/-- `cat a.txt`. -/
theorem cat_prints_first : ∃ es s l, Run StepOn (boot 0) es s ∧
    Prints (ket 1 0 s (typed (tokenText [97] text) 0) (shellStack 0)) (fileBytes s 2 1 l) := by
  have htoken : Token [97] text := ⟨by decide, by decide, by decide, by decide, by decide⟩
  obtain ⟨reply, s, c, l, hstep, hfile, htable, -⟩ := boot_textFile htoken sizeOk_one
  have hrun := Run.single hstep
  have hone : tableAt s 2 1 = fileEntry (padded [97]) (padded text) 1 c := by
    rw [htable, Function.update_self]
  refine ⟨_, s, l, hrun, (cat_prints_iff 0 _ s hrun (clean_single _ _) _
    (validStack_shellStack s 0) [97] 1 l hfile
    1 0 0).mpr ⟨?_, 1, ⟨⟨?_, 1, by decide, ?_, fun j hj => ?_⟩, fun j hj hpass => ?_⟩, rfl⟩⟩
  · show (tableAt s 2 1).filesize.toNat ≤ 2048
    rw [hone]
    exact show (1 : UInt32).toNat ≤ 2048 by decide
  · exact congrArg FAT32DirectoryEntry.ext hone
  · show (tableAt s 2 1).name 1 = 0
    rw [hone]
    rfl
  · show (tableAt s 2 1).name j = _
    rw [hone]
    rfl
  · exact absurd (passes_slot_one htable hpass) hj.ne

/-- `cat aaaaaaaa.txt`: no entry passes. -/
theorem cat_misses_long_name : ∃ es s l, Run StepOn (boot 0) es s ∧ (∀ e ∈ es, CleanStack e) ∧
    ValidStack s (shellStack 0) ∧ FileHere s (shellStack 0) (List.replicate 8 97) text 1 l ∧
    ¬ Prints (ket 1 0 s (typed (tokenText (List.replicate 8 97) text) 0) (shellStack 0))
      (fileBytes s 2 1 l) := by
  have htoken : Token (List.replicate 8 97) text := ⟨by decide, by decide, by decide, by decide, by decide⟩
  obtain ⟨reply, s, c, l, hstep, hfile, htable, -⟩ := boot_textFile htoken sizeOk_one
  have hrun := Run.single hstep
  obtain ⟨hs, hroot⟩ := rootSelf_of_runOn hrun (clean_single _ _)
  refine ⟨_, s, l, hrun, clean_single _ _, validStack_shellStack s 0, hfile, fun hprints => ?_⟩
  obtain ⟨-, k, hk, -⟩ := (prints_iff hs hroot (validStack_shellStack s 0) hfile).mp hprints
  obtain rfl := passes_slot_one htable hk.1
  obtain ⟨-, m, -, hzero, -⟩ := hk.1
  have hone : (tableAt s 2 1).name m = (padded (List.replicate 8 97) : Bytes 8) m := by
    rw [htable, Function.update_self]
    rfl
  rw [show (tableAt s 2 1).name m = 0 from hzero] at hone
  have hfull : ∀ j : Fin 8, (0 : UInt8) ≠ (padded (List.replicate 8 97) : Bytes 8) j := by decide
  exact hfull m hone

end KeropOS
