import KeropOS.Shell.Line

/-!
# The line editors

The loops over the keys of `exec_command` and of `nano`, which store into a `buff` of one cluster.

* `write_text`: `nano` from the call of `write` on;
* `EditorsInside`: no store is outside `buff`, and `nano` hands over the text that was typed;
* **`edit_line_returns_iff`**, **`editors_inside_iff`**: when that is so.
-/

namespace KeropOS

/-! ## The property -/

/-- `nano` from the call of `write` on. -/
def write_text (newDir : FAT32DirectoryTable) (s : Fs) (request : FAT32DriverRequest) :
    Except Trap (Option String × Fs) :=
  match write newDir s request with
  | .error t => .error t
  | .ok (retcode, s) => .ok (if retcode ≠ 0 then puts "FAILED TO WRITE FOLDER\n" 23 else none, s)

/-- Both loops end at the newline with every store in `buff`, whatever is in it at first, and the bytes that
`nano` hands to `write` are the text that the keys leave. -/
structure EditorsInside (keys : List UInt8) (buff : Buffer) : Prop where
  exec_command : ∃ i buff', edit_line 32 2048 (keys ++ [10]) 0 buff = .ok (i, buff')
  nano : ∃ (j : UInt32) (buff' : Buffer),
    edit_line 0 2048 (keys ++ [10]) 0 buff = .ok (j.toNat, buff') ∧
      (List.range j.toNat).map buff' = edited keys ∧
      ∀ (fuel : ℕ) (newDir : FAT32DirectoryTable) (s : Fs) (filename rest : Buffer) (st : DirStack)
        (parseId : ℕ), destination fuel filename = .ok (parseId, rest) →
        ¬ (0 < parseId ∧ st.dir_stack_index ≤ parseId) →
          KeropOS.nano fuel newDir buff s filename st (keys ++ [10]) =
            write_text newDir s
              { buf := buff'
                name := (nano_key rest).1
                ext := (nano_key rest).2
                parent_cluster_number := st.cluster parseId
                buffer_size := j }

/-! ## The loops -/

section

variable {blank : UInt8} {keys text : List UInt8} {buff : Buffer}

theorem edit_line_start (blank : UInt8) (buff : Buffer) (hkeys : 10 ∉ keys) :
    edit_line blank 2048 (keys ++ [10]) 0 buff = if reached [] keys ≤ 2048 then
        .ok ((edited keys).length, laid blank (edited keys) (reached [] keys) buff)
      else .error .outOfBounds := by
  have := @edit_line_eq blank [] keys 0 2048 buff hkeys le_rfl (Nat.zero_le _)
  rwa [laid_nil, List.length_nil, Nat.zero_max] at this

/-- **When a loop ends with every store in `buff`**. -/
theorem edit_line_returns_iff (blank : UInt8) (buff : Buffer) (hkeys : 10 ∉ keys) :
    (∃ i buff', edit_line blank 2048 (keys ++ [10]) 0 buff = .ok (i, buff')) ↔ reached [] keys ≤ 2048 := by
  rw [edit_line_start blank buff hkeys]
  split_ifs with h
  · exact iff_of_true ⟨_, _, rfl⟩ h
  · exact iff_of_false (by simp) h

/-- The text lies at the start of the line. -/
theorem laid_text (blank : UInt8) (text : List UInt8) (reach : ℕ) (buff : Buffer) :
    (List.range text.length).map (laid blank text reach buff) = text := by
  apply List.ext_getElem
  · rw [List.length_map, List.length_range]
  · intro k hk hk'
    rw [List.getElem_map, List.getElem_range, laid, dif_pos hk']

theorem nano_hands_over (hkeys : 10 ∉ keys) (hreached : reached [] keys ≤ 2048) (buff : Buffer) :
    ∃ (j : UInt32) (buff' : Buffer), edit_line 0 2048 (keys ++ [10]) 0 buff = .ok (j.toNat, buff') ∧
      (List.range j.toNat).map buff' = edited keys ∧ UInt32.ofNat j.toNat = j := by
  have hlen : (edited keys).length ≤ 2048 := foldl_length_le_reached.trans hreached
  have hnat : (UInt32.ofNat (edited keys).length).toNat = (edited keys).length :=
    UInt32.toNat_ofNat_of_lt' (by simp only [UInt32.size]; omega)
  refine ⟨UInt32.ofNat (edited keys).length, laid 0 (edited keys) (reached [] keys) buff, ?_, ?_, ?_⟩
  · rw [hnat, edit_line_start 0 buff hkeys, if_pos hreached]
  · rw [hnat, laid_text]
  · rw [hnat]

/-- The same key over and over. -/
theorem reached_replicate {key : UInt8} (h0 : key ≠ 0) (h8 : key ≠ 8) (n : ℕ) :
    reached text (List.replicate n key) = text.length + n := by
  induction n generalizing text with
  | zero => simp [reached]
  | succ n ih =>
    have hpress : press text key = text ++ [key] := by simp [press, h0, h8]
    rw [List.replicate_succ, reached_cons, hpress, ih, List.length_append, List.length_singleton]
    omega

end

/-- **When the line editors stay in bounds**: there are never more than 2048 characters on the line. -/
theorem editors_inside_iff (keys : List UInt8) (buff : Buffer) (hkeys : 10 ∉ keys) :
    EditorsInside keys buff ↔ reached [] keys ≤ 2048 := by
  constructor
  · intro h
    exact (edit_line_returns_iff 32 buff hkeys).mp h.exec_command
  · intro h
    refine ⟨(edit_line_returns_iff 32 buff hkeys).mpr h, ?_⟩
    obtain ⟨j, buff', hloop, htext, hj⟩ := nano_hands_over hkeys h buff
    refine ⟨j, buff', hloop, htext, fun fuel newDir s filename rest st parseId hd hup => ?_⟩
    unfold KeropOS.nano
    simp only [hd, hup, if_false, hloop, hj]
    rfl

/-- `"ab"`, a backspace, and `"c"`. -/
theorem editors_inside_short :
    10 ∉ ([97, 98, 8, 99] : List UInt8) ∧ EditorsInside [97, 98, 8, 99] (fun _ => 0) :=
  ⟨by decide, (editors_inside_iff [97, 98, 8, 99] (fun _ => 0) (by decide)).mpr (by decide)⟩

/-- 2049 characters. -/
theorem long_line_leaves : ¬ EditorsInside (List.replicate 2049 97) (fun _ => 0) := by
  intro h
  have hkeys : 10 ∉ List.replicate 2049 (97 : UInt8) := by
    intro hmem
    exact absurd (List.eq_of_mem_replicate hmem) (by decide)
  have hreached := (edit_line_returns_iff 32 _ hkeys).mp h.exec_command
  rw [reached_replicate (by decide) (by decide)] at hreached
  exact absurd hreached (by decide)

end KeropOS
