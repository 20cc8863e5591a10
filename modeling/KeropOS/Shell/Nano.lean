import KeropOS.Fat.PowerCycle
import KeropOS.Shell.Cat
import KeropOS.Shell.Editor

/-!
# Texts

What is typed in `nano` is saved, stays on the drive, and is shown by `cat`.

* **`map_run_keeps`**: a file stays as it is until it is deleted;
* **`nano_saves`**: `nano` is a `write` of the text that the keys leave;
* **`nano_then_cat_iff`**: when `cat` shows what was typed.
-/

namespace KeropOS

open Packed Linked Transition

/-! ## Files that stay -/

/-- No call that returns 0 is a `delete` of the key. -/
def Spares (key : Key) (es : List (Call × Reply)) : Prop :=
  ∀ r reply, (.delete r, reply) ∈ es → reply.code = 0 → r.key ≠ key

theorem map_step_keeps {m m' : FileMap} {event : Call × Reply} {key : Key} {node : Node}
    (h : MapStep m event m')
    (hspares : ∀ r reply, event = (.delete r, reply) → reply.code = 0 → r.key ≠ key)
    (hkey : m key = some node) : m' key = some node := by
  cases h with
  | @made r _ _ hnone =>
    -- a `write` makes no key that is there
    have hne : key ≠ r.made.1 := by
      rintro rfl
      rw [hnone] at hkey
      exact absurd hkey (by simp)
    rwa [Function.update_of_ne hne]
  | @deleted r reply _ hcode _ => rwa [Function.update_of_ne (hspares r reply rfl hcode).symm]
  | refused _ | kept _ | read _ | read_directory => exact hkey

/-- **A file stays until it is deleted.** -/
theorem map_run_keeps {m m' : FileMap} {es : List (Call × Reply)} {key : Key} {node : Node}
    (h : Run MapStep m es m') (hspares : Spares key es) (hkey : m key = some node) : m' key = some node :=
  h.invariant_mem (fun m => m key = some node)
    (fun _ _ _ he hm hstep => map_step_keeps hstep (fun r reply heq => hspares r reply (heq ▸ he)) hm) hkey

/-! ## `nano` -/

variable {s s' : Fs} {st : DirStack} {n keys : List UInt8} {x buff : Buffer} {fuel : ℕ}
  {newDir : FAT32DirectoryTable} {r : FAT32DriverRequest}

/-- A `write` of a file does not look at `newDir`. -/
theorem write_newDir (s : Fs) (newDir : FAT32DirectoryTable) (h : r.buffer_size ≠ 0) :
    write newDir s r = write 0 s r := by
  unfold write
  simp only [if_neg h]

theorem Token.nano_key (h : Token n text) :
    KeropOS.nano_key (typed (tokenText n text) x) = (padded n, padded text) := by
  rw [KeropOS.nano_key, file_key, h.dest_name, Prod.mk.injEq]
  refine ⟨rfl, funext fun i => (h.dest_ext i).trans ?_⟩
  exact padded_iff.mpr (fun j hj => absurd hj (by simp [text])) i

/-- With its stores in `buff`, `nano` is a `write`. -/
theorem nano_eq (h : Token n text) (hkeys : 10 ∉ keys) (hreached : reached [] keys ≤ 2048) (buff : Buffer) :
    ∃ (j : UInt32) (buff' : Buffer), firstBytes j.toNat buff' = edited keys ∧
      ∀ fuel newDir s st, nano fuel newDir buff s (typed (tokenText n text) x) st (keys ++ [10]) =
        write_text newDir s
          { buf := buff'
            name := padded n
            ext := padded text
            parent_cluster_number := st.cluster 0
            buffer_size := j } := by
  obtain ⟨j, buff', hloop, htyped, hj⟩ := nano_hands_over hkeys hreached buff
  refine ⟨j, buff', htyped, fun fuel newDir s st => ?_⟩
  obtain ⟨-, hdest⟩ := h.destination (x := x) fuel
  unfold KeropOS.nano
  simp only [hdest, lt_irrefl, false_and, if_false, hloop, hj, h.nano_key]
  rfl

/-- `nano` returns only with its stores in `buff`. -/
theorem nano_reached (h : Token n text) (hkeys : 10 ∉ keys) {reply : Option String × Fs}
    (hnano : nano fuel newDir buff s (typed (tokenText n text) x) st (keys ++ [10]) = .ok reply) :
    reached [] keys ≤ 2048 := by
  obtain ⟨-, hdest⟩ := h.destination (x := x) fuel
  apply (edit_line_returns_iff 0 buff hkeys).mp
  unfold KeropOS.nano at hnano
  simp only [hdest, lt_irrefl, false_and, if_false] at hnano
  cases hloop : edit_line 0 2048 (keys ++ [10]) 0 buff with
  | error e =>
    simp only [hloop] at hnano
    exact absurd hnano (by simp)
  | ok line => exact ⟨line.1, line.2, rfl⟩

/-- **What `nano` saves**: without an error shown, it has written the text that the keys leave. -/
theorem nano_saves (hs : Inv s) (hst : ValidStack s st) (h : Token n text) (hkeys : 10 ∉ keys)
    (htext : edited keys ≠ [])
    (hnano : nano fuel newDir buff s (typed (tokenText n text) x) st (keys ++ [10]) = .ok (none, s')) :
    (edited keys).length ≤ 2048 ∧ ∃ r : FAT32DriverRequest,
      r.buffer_size ≠ 0 ∧ r.key = ⟨(st.cluster 0).toNat, padded n, padded text⟩ ∧
      firstBytes r.buffer_size.toNat r.buf = edited keys ∧ CycleStep s (.call (.write r, ⟨0, r.buf⟩)) s' := by
  have hreached := nano_reached h hkeys hnano
  have hlen : (edited keys).length ≤ 2048 := foldl_length_le_reached.trans hreached
  obtain ⟨j, buff', htyped, heq⟩ := nano_eq (x := x) h hkeys hreached buff
  have hwrite := (heq fuel newDir s st).symm.trans hnano
  obtain ⟨r, hr⟩ : ∃ r : FAT32DriverRequest, r =
    { buf := buff'
      name := padded n
      ext := padded text
      parent_cluster_number := st.cluster 0
      buffer_size := j } := ⟨_, rfl⟩
  rw [← hr] at hwrite
  have hsize : j.toNat = (edited keys).length := by
    rw [← htyped, firstBytes, List.length_map, List.length_range]
  have hpos := List.length_pos_iff.mpr htext
  have hj : r.buffer_size = j := by rw [hr]
  have hok : SizeOk r.buffer_size := by
    rw [hj]
    exact ⟨by omega, by omega⟩
  have hparent : r.parent_cluster_number = st.cluster 0 := by rw [hr]
  have hlive : Live s r.parent_cluster_number.toNat := hparent ▸ hst.cluster_live 0
  rw [write_text, write_newDir s newDir hok.ne_zero] at hwrite
  refine ⟨hlen, r, hok.ne_zero, by rw [hr]; rfl, by rw [hr]; exact htyped, ?_⟩
  cases hw : write 0 s r with
  | error e =>
    rw [hw] at hwrite
    exact absurd hwrite (by simp)
  | ok reply =>
    obtain ⟨code, s₁⟩ := reply
    rw [hw] at hwrite
    obtain ⟨hshown, rfl⟩ := Prod.mk.inj (Except.ok.inj hwrite)
    have hcode : code = 0 := by
      by_contra hne
      rw [if_pos hne] at hshown
      exact absurd hshown (by simp [puts])
    subst hcode
    have hslot : ∃ n, ¬ (tableAt s r.parent_cluster_number.toNat n).InUse := by
      rcases write_live hs hlive (fun _ _ _ _ => rfl) hw with ⟨hr, -⟩ | ⟨-, n, e, cs, data, hfree, -⟩
      · exact absurd rfl hr.code_ne_zero
      · exact ⟨n, hfree.1⟩
    have hname : r.name ≠ 0 := by
      rw [hr]
      exact h.padded_ne_zero
    refine ⟨⟨⟨⟨hlive, hslot, .inr hok⟩, 0, ?_⟩, trivial⟩, hname⟩
    rw [exec, hw]

/-! ## `cat` -/

/-- The file of the map is in the directory. -/
theorem present_fileHere {p : ℕ} {bytes : List UInt8} (h : Token n text) (hp : (st.cluster 0).toNat = p)
    (hfile : Present s ⟨p, padded n, padded text⟩ (.file bytes)) :
    ∃ i l, FileHere s st n text i l ∧ fileBytes s (st.cluster 0).toNat i l = bytes := by
  subst hp
  obtain ⟨i, hheld, hname, hext, hattr, l, hchain, hbytes⟩ := hfile
  exact ⟨i, l, ⟨h, hheld, hname, hext, hattr, hchain⟩, hbytes.symm⟩

/-- **What is typed is what is shown.** A text typed in `nano` is shown by `cat`, after any calls and power
cycles that do not delete it, exactly when the first entry that passes for it has its length. -/
theorem nano_then_cat_iff (d : Disk) (es es' : List CycleEvent) (s₁ s₂ s : Fs) (st₁ st : DirStack)
    (n keys : List UInt8) (fuel fuel' : ℕ) (newDir : FAT32DirectoryTable) (buff fileBuff x y : Buffer)
    (hd : is_empty_storage d = true) (hes : Run CycleStep (mount d) es s₁) (hst₁ : ValidStack s₁ st₁)
    (htoken : Token n text) (hkeys : 10 ∉ keys) (htext : edited keys ≠ [])
    (hnano : nano fuel newDir buff s₁ (typed (tokenText n text) x) st₁ (keys ++ [10]) = .ok (none, s₂))
    (hes' : Run CycleStep s₂ es' s)
    (hspares : Spares ⟨(st₁.cluster 0).toNat, padded n, padded text⟩ (es'.filterMap CycleEvent.call?))
    (hst : ValidStack s st) (hback : st.cluster 0 = st₁.cluster 0) :
    Prints (ket fuel' fileBuff s (typed (tokenText n text) y) st) (edited keys) ↔
      ∃ k, FirstPasses (tableAt s (st.cluster 0).toNat) (padded n) k ∧
        (tableAt s (st.cluster 0).toNat k).filesize.toNat = (edited keys).length := by
  obtain ⟨-, -, ⟨hs₁, -⟩, -⟩ := tracks_of_cycles hd hes
  obtain ⟨hlen, r, hsize, hkey, htyped, hcall⟩ := nano_saves hs₁ hst₁ htoken hkeys htext hnano
  have hsaved := hes.snoc hcall
  obtain ⟨m, hmap, hinv, hm⟩ := tracks_of_cycles hd hsaved
  obtain ⟨m', hmap', ⟨hs, -⟩, hm'⟩ := cycle_run hes' ⟨hinv, hm⟩
  have hroot := rootSelf_of_cycles hd (hsaved.append hes')
  have hfile : m r.key = some (.file (edited keys)) := by
    rw [List.filterMap_append] at hmap
    rw [← htyped]
    exact written_last hsize hmap
  have hlater : m' r.key = some (.file (edited keys)) := map_run_keeps hmap' (hkey ▸ hspares) hfile
  rw [hkey] at hlater
  obtain ⟨i, l, hhere, hbytes⟩ := present_fileHere htoken (congrArg UInt32.toNat hback) ((hm' _ _).mp hlater)
  have hlength : (tableAt s (st.cluster 0).toNat i).filesize.toNat = (edited keys).length := by
    rw [← hbytes, length_fileBytes]
  rw [← hbytes, prints_iff hs hroot hst hhere, hbytes, ← hlength]
  rw [← hlength] at hlen
  rw [and_iff_right hlen]
  exact exists_congr fun k => and_congr_right fun _ => UInt32.toNat_inj.symm

/-- `a.txt` is the first file of a new drive. -/
theorem boot_a (buff : Buffer) : ∃ s c,
    write_text 0 (mount 0)
      { buf := buff
        name := padded [97]
        ext := padded text
        parent_cluster_number := (shellStack 0).cluster 0
        buffer_size := 1 } = .ok (none, s) ∧ Inv s ∧
      tableAt s 2 = Function.update (tableAt (boot 0) 2) 1 (fileEntry (padded [97]) (padded text) 1 c) := by
  obtain ⟨r, hr⟩ : ∃ r : FAT32DriverRequest, r =
    { buf := buff
      name := padded [97]
      ext := padded text
      parent_cluster_number := (shellStack 0).cluster 0
      buffer_size := 1 } := ⟨_, rfl⟩
  obtain ⟨reply, s, ⟨-, fuel, hstep⟩, hcode, e, cs, data, ha, hask⟩ :=
    boot_added 0 (r := r) (by rw [hr]; rfl) (by rw [hr]; exact token_a.padded_ne_zero)
      (.inr (by rw [hr]; exact sizeOk_one))
  have he : e = fileEntry (padded [97]) (padded text) 1 e.cluster := by
    have hentry := (hask.file (by rw [hr]; exact sizeOk_one.ne_zero)).2
    rwa [hr] at hentry
  refine ⟨s, e.cluster, ?_, ha.inv (inv_boot 0), ?_⟩
  · rw [← hr, mount_unformatted is_empty_storage_zero, write_text]
    rw [exec] at hstep
    cases hw : write 0 (boot 0) r with
    | error t =>
      rw [hw] at hstep
      exact absurd hstep (by simp)
    | ok result =>
      rw [hw] at hstep
      obtain ⟨hreply, hs⟩ := Prod.mk.inj (Except.ok.inj hstep)
      have hzero : result.1 = 0 := (congrArg Reply.code hreply).trans hcode
      show Except.ok (if result.1 ≠ 0 then _ else none, result.2) = _
      rw [if_neg (not_not.mpr hzero), hs]
  · rw [← he]
    exact (ha.tableAt_live (inv_boot 0) .root).trans (if_pos rfl)

/-- `ab`, a backspace: `a` is shown after the machine was switched off. -/
theorem nano_then_cat_a : ∃ s, nano 1 0 0 (mount 0) (typed (tokenText [97] text) 0) (shellStack 0)
      ([97, 98, 8] ++ [10]) = .ok (none, s) ∧
    Prints (ket 1 0 (mount s.disk) (typed (tokenText [97] text) 0) (shellStack 0)) [97] := by
  have hkeys : (10 : UInt8) ∉ [97, 98, 8] := by decide
  obtain ⟨j, buff', htyped, heq⟩ := nano_eq (x := 0) token_a hkeys (by decide) 0
  have hj : j = 1 := by
    have hlen := congrArg List.length htyped
    rw [firstBytes, List.length_map, List.length_range] at hlen
    exact UInt32.toNat_inj.mp hlen
  subst hj
  obtain ⟨s, c, hwrite, hs, htable⟩ := boot_a buff'
  have hnano := (heq 1 0 (mount 0) (shellStack 0)).trans hwrite
  have htable' : tableAt (mount s.disk) 2 =
      Function.update (tableAt (boot 0) 2) 1 (fileEntry (padded [97]) (padded text) 1 c) := by
    rw [hs.sameFiles_mount.tableAt, htable]
  have hone : tableAt (mount s.disk) 2 1 = fileEntry (padded [97]) (padded text) 1 c := by
    rw [htable', Function.update_self]
  have hpasses : PassesFor (tableAt (mount s.disk) 2) (padded [97]) 1 := by
    rw [PassesFor, hone]
    refine ⟨rfl, 1, by decide, ?_, fun j hj => ?_⟩
    · rw [hone]
      rfl
    · rw [hone]
      rfl
  have hsize : (tableAt (mount s.disk) 2 1).filesize = 1 := congrArg FAT32DirectoryEntry.filesize hone
  refine ⟨s, hnano, (nano_then_cat_iff 0 [] [.cycle] (mount 0) s (mount s.disk) (shellStack 0) (shellStack 0)
    [97] [97, 98, 8] 1 1 0 0 0 0 0 is_empty_storage_zero .nil (validStack_shellStack _ 0) token_a hkeys
    (by decide) hnano (.single rfl) (fun r reply h => absurd h (by simp [CycleEvent.call?]))
    (validStack_shellStack _ 0) rfl).mpr ⟨1, ⟨hpasses, fun k hk hpass => ?_⟩, ?_⟩⟩
  · exact absurd (passes_slot_one htable' hpass) hk.ne
  · exact congrArg UInt32.toNat hsize

end KeropOS
