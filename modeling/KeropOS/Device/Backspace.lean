import KeropOS.Device.Screen

/-!
# Taking characters back
The shell recolours a command by backspaces over what was typed. A backspace goes back over a character that
was shown in the same row, but from the last column it goes on to the next row, and from the first one three
rows down.

* `Undoes`: as many backspaces as characters leave the cursor where it was, blank the cells that were written,
  and touch no other;
* `printed`, `rubbed`: what the characters do, and the backspaces within a row;
* **`undoes_iff`**: when backspaces undo.
-/

namespace KeropOS

namespace Screen

/-! ## The property -/

/-- Not a zero, a backspace or a newline. -/
def Printable (kata : UInt8) : Prop := kata ≠ 0 ∧ kata ≠ 8 ∧ kata ≠ 10

instance (kata : UInt8) : Decidable (Printable kata) := by
  unfold Printable
  infer_instance

/-- The cursor in row `r` and column `c`. -/
def placed (r c : ℕ) (cells : ℕ → UInt16) : Terminal := ⟨UInt16.ofNat (80 * r + c), cells, []⟩

/-- After the text, with the writes counted from there. -/
def typed_text (t : Terminal) (text : List (UInt8 × UInt8)) : Terminal :=
  { show_chars t text with writes := [] }

/-- Backspaces, each with its colour. -/
def backspaces (colours : List UInt8) : List (UInt8 × UInt8) := colours.map fun ecx => (8, ecx)

def after_backspaces (t : Terminal) (text : List (UInt8 × UInt8)) (colours : List UInt8) : Terminal :=
  show_chars (typed_text t text) (backspaces colours)

/-- A cell is written by the text. -/
def WrittenBy (t : Terminal) (text : List (UInt8 × UInt8)) (a : ℕ) : Prop :=
  ∃ w ∈ (show_chars t text).writes, address w.1 w.2 = a

/-- The backspaces leave the cursor where it was before the text, blank the cells of the text, write no other,
and leave the others as they were. -/
structure Undoes (t : Terminal) (text : List (UInt8 × UInt8)) (colours : List UInt8) : Prop where
  cursor : (after_backspaces t text colours).cursor = t.cursor
  blank : ∀ a, WrittenBy t text a → ((after_backspaces t text colours).cells a).toUInt8 = 0
  only : ∀ w ∈ (after_backspaces t text colours).writes, WrittenBy t text (address w.1 w.2)
  kept : ∀ a, ¬ WrittenBy t text a → (after_backspaces t text colours).cells a = t.cells a

/-! ## Forward -/

section

variable {t : Terminal} {text : List (UInt8 × UInt8)} {colours : List UInt8} {kata ecx : UInt8} {p n r c : ℕ}

theorem cell_blank (ecx : UInt8) : (cell 0 ecx 0).toUInt8 = 0 := by
  have hall : ∀ e : Fin 256, (cell 0 (UInt8.ofFin e) 0).toUInt8 = 0 := by decide +kernel
  exact hall ecx.toFin

/-- What the text does, above the last row: it is written from the cursor on, over the ends of rows. -/
structure Printed (t t' : Terminal) (n : ℕ) : Prop where
  cursor : t'.cursor.toNat = t.cursor.toNat + n
  cells : ∀ a, ¬ (t.cursor.toNat ≤ a ∧ a < t.cursor.toNat + n) → t'.cells a = t.cells a
  writes : ∀ a, (∃ w ∈ t'.writes, address w.1 w.2 = a) ↔ t.cursor.toNat ≤ a ∧ a < t.cursor.toNat + n

theorem printed (hw : t.writes = []) (hprint : ∀ x ∈ text, Printable x.1)
    (hfit : t.cursor.toNat + text.length ≤ 24 * 80) : Printed t (show_chars t text) text.length := by
  induction text using List.reverseRecOn with
  | nil =>
    refine ⟨rfl, fun a _ => rfl, fun a => ?_⟩
    show (∃ w ∈ t.writes, address w.1 w.2 = a) ↔ _
    rw [hw]
    simp
  | append_singleton front x ih =>
    rw [List.length_append, List.length_singleton] at hfit
    have hfront := ih (fun y hy => hprint y (List.mem_append_left _ hy)) (by omega)
    obtain ⟨h0, h8, h10⟩ := hprint x (by simp)
    have hcursor := hfront.cursor
    have hat : At (show_chars t front) _ _ := at_of_cursor_lt (by omega)
    rw [show_chars_snoc, List.length_append, List.length_singleton,
      putchar_print hat (by omega) h0 h8 h10]
    refine ⟨?_, fun a ha => ?_, fun a => ?_⟩
    · rw [toNat_cursor (by omega), hcursor]
      omega
    · show Function.update _ _ _ a = _
      rw [Function.update_of_ne (by omega)]
      exact hfront.cells a (by omega)
    · rw [List.exists_mem_cons_iff, hfront.writes a, hat.address]
      omega

/-! ## Backward -/

/-- What backspaces do within a row: they blank the cells before the cursor. -/
structure Rubbed (t t' : Terminal) (n : ℕ) : Prop where
  cursor : t'.cursor.toNat = t.cursor.toNat - n
  cells : ∀ a, ¬ (t.cursor.toNat - n ≤ a ∧ a < t.cursor.toNat) → t'.cells a = t.cells a
  blank : ∀ a, t.cursor.toNat - n ≤ a → a < t.cursor.toNat → (t'.cells a).toUInt8 = 0
  writes : ∀ w ∈ t'.writes, t.cursor.toNat - n ≤ address w.1 w.2 ∧ address w.1 w.2 < t.cursor.toNat

theorem rubbed (h : At t r c) (hw : t.writes = []) (hr : r ≤ 23) (hc : c ≤ 78) (hn : colours.length ≤ c) :
    Rubbed t (show_chars t (backspaces colours)) colours.length := by
  induction colours using List.reverseRecOn with
  | nil =>
    refine ⟨rfl, fun a _ => rfl, fun a h1 h2 => ?_, fun w hmem => ?_⟩
    · rw [List.length_nil] at h1
      omega
    · exact absurd (hw ▸ hmem : w ∈ ([] : List (UInt8 × UInt8))) List.not_mem_nil
  | append_singleton front ecx ih =>
    rw [List.length_append, List.length_singleton] at hn
    have hfront := ih (by omega)
    have hstart := h.cursor
    have hcursor := hfront.cursor
    have hat : At (show_chars t (backspaces front)) r (c - front.length) :=
      ⟨h.row_lt, by omega, by omega⟩
    have hback : backspaces (front ++ [ecx]) = backspaces front ++ [(8, ecx)] := List.map_append
    have hwrite := @putchar_backspace _ ecx _ _ hat hr
    have haddress := hat.address_before
    rw [if_neg (by omega), if_neg (by omega), hcursor] at hwrite
    rw [if_neg (by omega), hcursor] at haddress
    rw [hback, show_chars_snoc, List.length_append, List.length_singleton, hwrite]
    refine ⟨?_, fun a ha => ?_, fun a hle hlt => ?_, fun w hmem => ?_⟩
    · rw [toNat_cursor (by omega)]
      omega
    · show Function.update _ _ _ a = _
      rw [Function.update_of_ne (by omega)]
      exact hfront.cells a (by omega)
    · by_cases ha : a = t.cursor.toNat - front.length - 1
      · simp only [ha, Function.update_self, cell_blank]
      · simp only [Function.update_of_ne ha]
        exact hfront.blank a (by omega) hlt
    · rcases List.mem_cons.mp hmem with rfl | hmem
      · rw [haddress]
        omega
      · have := hfront.writes w hmem
        omega

/-! ## Both ways -/

theorem placed_cursor (hr : r ≤ 22) (hc : c ≤ 79) (cells : ℕ → UInt16) :
    (placed r c cells).cursor.toNat = 80 * r + c := toNat_cursor (by omega)

/-- The text goes from the cursor on. -/
theorem printed_placed (hr : r ≤ 22) (hc : c ≤ 79) (cells : ℕ → UInt16) (hlen : text.length ≤ 80)
    (hprint : ∀ x ∈ text, Printable x.1) :
    Printed (placed r c cells) (show_chars (placed r c cells) text) text.length :=
  printed rfl hprint (by rw [placed_cursor hr hc]; omega)

theorem undoes_within_row (hr : r ≤ 22) (hc : c ≤ 79) (cells : ℕ → UInt16) (hlen : text.length ≤ 80)
    (hprint : ∀ x ∈ text, Printable x.1) (hsame : colours.length = text.length)
    (hfit : c + text.length ≤ 78) : Undoes (placed r c cells) text colours := by
  have hforth := printed_placed hr hc cells hlen hprint
  have hcursor := hforth.cursor
  have hstart := placed_cursor hr hc cells
  have hat : At (typed_text (placed r c cells) text) r (c + text.length) :=
    ⟨by omega, by omega, by rw [typed_text, hcursor, hstart]; omega⟩
  have hback := rubbed hat rfl (by omega) hfit (by omega : colours.length ≤ c + text.length)
  have hend : (typed_text (placed r c cells) text).cursor.toNat =
      (placed r c cells).cursor.toNat + text.length := hcursor
  have hwritten : ∀ a, WrittenBy (placed r c cells) text a ↔
      (placed r c cells).cursor.toNat ≤ a ∧ a < (placed r c cells).cursor.toNat + text.length := hforth.writes
  refine ⟨?_, fun a ha => ?_, fun w hw => ?_, fun a ha => ?_⟩
  · rw [← UInt16.toNat_inj]
    refine hback.cursor.trans ?_
    rw [hend, hsame, Nat.add_sub_cancel]
  · rw [hwritten] at ha
    exact hback.blank a (by omega) (by omega)
  · rw [hwritten]
    have := hback.writes w hw
    omega
  · rw [hwritten] at ha
    refine (hback.cells a (by omega)).trans ?_
    exact hforth.cells a ha

/-- A backspace in the first column is written 255 cells on. -/
theorem backspace_first_col (h : At t r 0) :
    ∃ w, (putchar t 8 ecx).writes = w :: t.writes ∧ address w.1 w.2 = 80 * r + 255 := by
  by_cases hr : r ≤ 23
  · refine ⟨_, by rw [putchar_backspace h hr], ?_⟩
    exact h.address_before.trans (by rw [if_pos rfl, h.cursor, Nat.add_zero])
  · refine ⟨_, by rw [putchar_backspace_clear h (by omega)], ?_⟩
    show address _ _ = _
    unfold address
    rw [h.row, Nat.mul_comm]
    rfl

theorem move_cursor_writes (t : Terminal) (kata : UInt8) (cursor : Cursor) (newrow newcol : ℤ) :
    (move_cursor t kata cursor newrow newcol).writes = t.writes := by
  unfold move_cursor framebuffer_set_cursor
  split_ifs <;> rfl

theorem put_visible_writes (t : Terminal) (kata ecx : UInt8) (cursor : Cursor) (newrow newcol : ℤ) :
    t.writes <:+ (put_visible t kata ecx cursor newrow newcol).writes := by
  unfold put_visible
  split_ifs
  · rw [move_cursor_writes]
    exact List.suffix_cons _ _
  · rw [move_cursor_writes]
    exact List.suffix_cons _ _

/-- No write is forgotten. -/
theorem writes_putchar (t : Terminal) (kata ecx : UInt8) : t.writes <:+ (putchar t kata ecx).writes := by
  unfold putchar
  simp only
  split_ifs
  · exact put_visible_writes (framebuffer_clear t) ..
  · exact put_visible_writes t ..
  · exact (move_cursor_writes ..).symm ▸ List.suffix_rfl

theorem writes_show_chars (t : Terminal) (chars : List (UInt8 × UInt8)) :
    t.writes <:+ (show_chars t chars).writes := by
  induction chars generalizing t with
  | nil => exact List.suffix_rfl
  | cons x chars ih => exact (writes_putchar t x.1 x.2).trans (ih _)

/-- A backspace in the first column, among others, writes 255 cells on. -/
theorem writes_first_col {front rest : List UInt8} (h : At (show_chars t (backspaces front)) r 0) :
    ∃ w ∈ (show_chars t (backspaces (front ++ ecx :: rest))).writes, address w.1 w.2 = 80 * r + 255 := by
  obtain ⟨w, hw, haddress⟩ := @backspace_first_col _ ecx _ h
  have hsplit : backspaces (front ++ ecx :: rest) = (backspaces front ++ [(8, ecx)]) ++ backspaces rest := by
    simp [backspaces]
  have hmem : w ∈ (show_chars t (backspaces front ++ [(8, ecx)])).writes := by
    rw [show_chars_snoc, hw]
    exact List.mem_cons_self ..
  refine ⟨w, ?_, haddress⟩
  rw [hsplit]
  unfold show_chars
  rw [List.foldl_append]
  exact (writes_show_chars _ (backspaces rest)).subset hmem

/-- Over the end of the row, a backspace gets to a first column, or there is only one, in the last column. -/
theorem not_undoes_over_end (hr : r ≤ 22) (hc : c ≤ 79) (cells : ℕ → UInt16) (hlen : text.length ≤ 80)
    (hprint : ∀ x ∈ text, Printable x.1) (hsame : colours.length = text.length) (hne : text ≠ [])
    (hover : 79 ≤ c + text.length) : ¬ Undoes (placed r c cells) text colours := by
  intro h
  have hforth := printed_placed hr hc cells hlen hprint
  have hstart := placed_cursor hr hc cells
  have hpos := List.length_pos_iff.mpr hne
  have hend : (typed_text (placed r c cells) text).cursor.toNat = 80 * r + c + text.length := by
    rw [← hstart]
    exact hforth.cursor
  -- what is written three rows below the text is no part of it
  have hfar : ∀ front rest ecx row, r + 1 ≤ row → colours = front ++ ecx :: rest →
      At (show_chars (typed_text (placed r c cells) text) (backspaces front)) row 0 → False := by
    rintro front rest ecx row hrow rfl hat
    obtain ⟨w, hw, haddress⟩ := @writes_first_col _ ecx _ front rest hat
    have := (hforth.writes _).mp (h.only w hw)
    omega
  by_cases hlast : c + text.length = 79 ∨ c + text.length = 159
  · -- from the last column to the start of the next row
    have hat : At (typed_text (placed r c cells) text) ((80 * r + c + text.length) / 80) 79 :=
      ⟨by omega, by omega, by omega⟩
    have hcolours : colours ≠ [] := fun he => by rw [he, List.length_nil] at hsame; omega
    obtain ⟨ecx, rest, rfl⟩ := List.exists_cons_of_ne_nil hcolours
    have hnext : (show_chars (typed_text (placed r c cells) text) (backspaces [ecx])).cursor.toNat =
      80 * r + c + text.length + 1 := by
      show (putchar (typed_text (placed r c cells) text) 8 ecx).cursor.toNat = _
      rw [putchar_backspace hat (by omega), if_pos rfl, toNat_cursor (by omega), hend]
    cases rest with
    | nil =>
      have hback : (show_chars (typed_text (placed r c cells) text) (backspaces [ecx])).cursor =
          (placed r c cells).cursor := h.cursor
      rw [hback, hstart] at hnext
      omega
    | cons ecx' rest =>
      exact hfar [ecx] rest ecx' ((80 * r + c + text.length) / 80 + 1) (by omega) rfl
        ⟨by omega, by decide, by omega⟩
  · -- back to the start of the row
    have hat : At (typed_text (placed r c cells) text) (r + 1) (c + text.length - 80) :=
      ⟨by omega, by omega, by omega⟩
    have hfront : (colours.take (c + text.length - 80)).length = c + text.length - 80 := by
      rw [List.length_take]
      omega
    have hback := rubbed hat rfl (by omega) (by omega) (Nat.le_of_eq hfront)
    obtain ⟨ecx, rest, hrest⟩ := List.exists_cons_of_ne_nil
      (List.ne_nil_of_length_pos (by rw [List.length_drop]; omega) : colours.drop (c + text.length - 80) ≠ [])
    have hsplit : colours = colours.take (c + text.length - 80) ++ ecx :: rest := by
      rw [← hrest, List.take_append_drop]
    refine hfar _ rest ecx _ le_rfl hsplit ⟨by omega, by decide, ?_⟩
    rw [hback.cursor, hfront, hend]
    omega

end

/-- **When backspaces undo what was shown**: nothing was, or it ends before the last column of its row. -/
theorem undoes_iff (r c : ℕ) (hr : r ≤ 22) (hc : c ≤ 79) (cells : ℕ → UInt16) (text : List (UInt8 × UInt8))
    (hlen : text.length ≤ 80) (hprint : ∀ x ∈ text, Printable x.1) (colours : List UInt8)
    (hsame : colours.length = text.length) :
    Undoes (placed r c cells) text colours ↔ text = [] ∨ c + text.length ≤ 78 := by
  constructor
  · intro h
    by_contra hnot
    rw [not_or] at hnot
    exact not_undoes_over_end hr hc cells hlen hprint hsame hnot.1 (by omega) h
  · rintro (rfl | hfit)
    · obtain rfl := List.length_eq_zero_iff.mp hsame
      refine ⟨rfl, fun a ha => ?_, fun w hw => absurd hw List.not_mem_nil, fun a _ => rfl⟩
      obtain ⟨w, hw, -⟩ := ha
      exact absurd hw List.not_mem_nil
    · exact undoes_within_row hr hc cells hlen hprint hsame hfit

/-- `"ls"` typed in row 5, and taken back. -/
theorem undoes_ls : Undoes (placed 5 3 fun _ => 0) [(108, 15), (115, 15)] [15, 15] := by
  have hprint : ∀ x ∈ [((108 : UInt8), (15 : UInt8)), (115, 15)], Printable x.1 :=
    List.forall_mem_cons.mpr ⟨by decide, List.forall_mem_singleton.mpr (by decide)⟩
  refine (undoes_iff 5 3 (by decide) (by decide) (fun _ => 0) _ (by decide) hprint [15, 15] rfl).mpr ?_
  exact .inr (by decide)

/-- One character before the last column. -/
theorem not_undoes_before_last : ¬ Undoes (placed 0 78 fun _ => 0) [(97, 15)] [15] :=
  not_undoes_over_end (by decide) (by decide) _ (by decide) (List.forall_mem_singleton.mpr (by decide)) rfl
    (by decide) (by decide)

end Screen

end KeropOS
