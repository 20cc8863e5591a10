import Mathlib.Data.Int.Basic
import Mathlib.Data.List.Basic
import Mathlib.Logic.Function.Basic

/-!
# The screen
`framebuffer.c`: the text screen of 25 rows of 80 cells, and the cursor of the display controller, which is
kept in its registers 0x0E and 0x0F as an offset. A cell is two bytes, the character and its colours.

* `Terminal`: the cursor, the cells, and the calls of `framebuffer_write` so far;
* `framebuffer_set_cursor`, `framebuffer_get_cursor`, `framebuffer_write`, `framebuffer_clear`, `putchar`,
  `puts`;
* `putchar_print`, `putchar_newline`, `putchar_backspace`, `putchar_null`: what a character does.
-/

namespace KeropOS

namespace Screen

/-! ## The code -/

/-- The display; `writes` are the row and the column in each call of `framebuffer_write`, last one first. -/
structure Terminal where
  cursor : UInt16
  cells : ℕ → UInt16
  writes : List (UInt8 × UInt8)

structure Cursor where
  row : UInt8
  col : UInt8

def framebuffer_set_cursor (t : Terminal) (r c : UInt8) : Terminal :=
  { t with cursor := UInt16.ofNat (r.toNat * 80 + c.toNat) }

def framebuffer_get_cursor (t : Terminal) : Cursor where
  row := UInt8.ofNat (t.cursor.toNat / 80)
  col := UInt8.ofNat (t.cursor.toNat % 80)

/-- The cell that a row and a column stand for. -/
def address (row col : UInt8) : ℕ := row.toNat * 80 + col.toNat

/-- `c | (attrib << 8)`; `c` is a signed character. -/
def cell (c fg bg : UInt8) : UInt16 :=
  c.toInt8.toInt16.toUInt16 ||| ((bg.toUInt16 <<< 4 ||| (fg &&& 0x0F).toUInt16) <<< 8)

def framebuffer_write (t : Terminal) (row col c fg bg : UInt8) : Terminal :=
  { t with
    cells := Function.update t.cells (address row col) (cell c fg bg)
    writes := (row, col) :: t.writes }

/-- It clears 24 rows. -/
def framebuffer_clear (t : Terminal) : Terminal :=
  { t with cells := fun a => if a < 80 * 24 then 0x0720 else t.cells a }

/-- The end of `putchar`. -/
def move_cursor (t : Terminal) (kata : UInt8) (c : Cursor) (newrow newcol : ℤ) : Terminal :=
  if kata ≠ 0 then
    if c.col = 79 then framebuffer_set_cursor t (UInt8.ofInt (newrow + 1)) 0
    else framebuffer_set_cursor t (UInt8.ofInt newrow) (UInt8.ofInt newcol)
  else t

/-- `putchar` of `kata`, which is not a newline or zero, from `newrow` and `newcol` on. -/
def put_visible (t : Terminal) (kata ecx : UInt8) (c : Cursor) (newrow newcol : ℤ) : Terminal :=
  if kata ≠ 8 then move_cursor (framebuffer_write t c.row c.col kata ecx 0) kata c newrow (newcol + 1)
  else move_cursor (framebuffer_write t c.row (UInt8.ofInt (newcol - 1)) 0 ecx 0) kata c newrow (newcol - 1)

/-- `putchar`, of a character with its colour; 10 is the newline and 8 the backspace. -/
def putchar (t : Terminal) (kata ecx : UInt8) : Terminal :=
  let c := framebuffer_get_cursor t
  let newrow : ℤ := c.row.toNat
  let newcol : ℤ := c.col.toNat
  if kata ≠ 10 ∧ kata ≠ 0 then
    if newrow > 23 then put_visible (framebuffer_clear t) kata ecx c 0 0
    else put_visible t kata ecx c newrow newcol
  else move_cursor t kata c (newrow + 1) 0

/-- `puts`, of the memory from `ebx` on. -/
def puts (t : Terminal) (ebx : ℕ → UInt8) (length textcolor : UInt8) : Terminal :=
  (List.range length.toNat).foldl (fun t i => putchar t (ebx i) textcolor) t

/-! ## What a character does -/

/-- The cursor is in this row and column. -/
structure At (t : Terminal) (r c : ℕ) : Prop where
  row_lt : r < 256
  col_lt : c < 80
  cursor : t.cursor.toNat = 80 * r + c

section

variable {t : Terminal} {kata ecx : UInt8} {r c : ℕ}

theorem toNat_ofInt (x : ℤ) : (UInt8.ofInt x).toNat = (x % 256).toNat := by
  unfold UInt8.ofInt
  apply UInt8.toNat_ofNat_of_lt'
  simp only [UInt8.size]
  omega

theorem At.row (h : At t r c) : (framebuffer_get_cursor t).row.toNat = r := by
  have hrow : t.cursor.toNat / 80 = r := by have := h.col_lt; have := h.cursor; omega
  unfold framebuffer_get_cursor
  rw [hrow]
  exact UInt8.toNat_ofNat_of_lt' h.row_lt

theorem At.col (h : At t r c) : (framebuffer_get_cursor t).col.toNat = c := by
  have hcol : t.cursor.toNat % 80 = c := by have := h.col_lt; have := h.cursor; omega
  unfold framebuffer_get_cursor
  rw [hcol]
  exact UInt8.toNat_ofNat_of_lt' (Nat.lt_trans h.col_lt (by decide))

theorem At.address (h : At t r c) :
    address (framebuffer_get_cursor t).row (framebuffer_get_cursor t).col = t.cursor.toNat := by
  unfold Screen.address
  rw [h.row, h.col, h.cursor, Nat.mul_comm]

/-- Where the end of `putchar` leaves the cursor. -/
theorem At.move_cursor (h : At t r c) (t' : Terminal) (hkata : kata ≠ 0) (newrow newcol : ℤ) :
    move_cursor t' kata (framebuffer_get_cursor t) newrow newcol =
      { t' with
        cursor := UInt16.ofNat (if c = 79 then 80 * ((newrow + 1) % 256).toNat
          else 80 * (newrow % 256).toNat + (newcol % 256).toNat) } := by
  have hcol : (framebuffer_get_cursor t).col = 79 ↔ c = 79 := by
    rw [← UInt8.toNat_inj, h.col]
    rfl
  unfold Screen.move_cursor framebuffer_set_cursor
  rw [if_pos hkata]
  by_cases hc : c = 79
  · rw [if_pos (hcol.mpr hc), if_pos hc, toNat_ofInt, Nat.mul_comm]
    rfl
  · rw [if_neg fun he => hc (hcol.mp he), if_neg hc, toNat_ofInt, toNat_ofInt, Nat.mul_comm]

/-- A character that is shown: above the last row, it is written at the cursor, which goes on by one. -/
theorem putchar_print (h : At t r c) (hr : r ≤ 23) (h0 : kata ≠ 0) (h8 : kata ≠ 8) (h10 : kata ≠ 10) :
    putchar t kata ecx =
      { cursor := UInt16.ofNat (t.cursor.toNat + 1)
        cells := Function.update t.cells t.cursor.toNat (cell kata ecx 0)
        writes := ((framebuffer_get_cursor t).row, (framebuffer_get_cursor t).col) :: t.writes } := by
  have hcol := h.col_lt
  have hcursor := h.cursor
  unfold putchar put_visible
  simp only [h.row, h.col]
  rw [if_pos ⟨h10, h0⟩, if_neg (by omega), if_pos h8, h.move_cursor _ h0]
  unfold framebuffer_write
  rw [h.address]
  have hend : (if c = 79 then 80 * (((r : ℤ) + 1) % 256).toNat
      else 80 * ((r : ℤ) % 256).toNat + (((c : ℤ) + 1) % 256).toNat) = t.cursor.toNat + 1 := by
    split_ifs <;> omega
  simp only [hend]

/-- In the last row and below, the rows above are cleared, and the cursor goes up. -/
theorem putchar_print_clear (h : At t r c) (hr : 24 ≤ r) (h0 : kata ≠ 0) (h8 : kata ≠ 8) (h10 : kata ≠ 10) :
    putchar t kata ecx =
      { cursor := if c = 79 then 80 else 1
        cells := Function.update (framebuffer_clear t).cells t.cursor.toNat (cell kata ecx 0)
        writes := ((framebuffer_get_cursor t).row, (framebuffer_get_cursor t).col) :: t.writes } := by
  unfold putchar put_visible
  simp only [h.row, h.col]
  rw [if_pos ⟨h10, h0⟩, if_pos (by omega), if_pos h8, h.move_cursor _ h0]
  unfold framebuffer_write
  rw [h.address]
  by_cases hc : c = 79
  · simp only [if_pos hc]
    rfl
  · simp only [if_neg hc]
    rfl

theorem putchar_newline (h : At t r c) : putchar t 10 ecx =
    { t with
      cursor := UInt16.ofNat (if c = 79 then 80 * (((r : ℤ) + 1 + 1) % 256).toNat
        else 80 * (((r : ℤ) + 1) % 256).toNat) } := by
  unfold putchar
  simp only [h.row, h.col]
  rw [if_neg (by decide), h.move_cursor _ (by decide)]
  rfl

/-- The cell before the cursor, as `putchar` finds it: the column before the first is column 255. -/
theorem At.address_before (h : At t r c) :
    Screen.address (framebuffer_get_cursor t).row (UInt8.ofInt ((c : ℤ) - 1)) =
      if c = 0 then t.cursor.toNat + 255 else t.cursor.toNat - 1 := by
  have hcol := h.col_lt
  have hcursor := h.cursor
  unfold Screen.address
  rw [h.row, toNat_ofInt]
  split_ifs <;> omega

/-- A backspace above the last row. -/
theorem putchar_backspace (h : At t r c) (hr : r ≤ 23) : putchar t 8 ecx =
    { cursor := UInt16.ofNat (if c = 79 then t.cursor.toNat + 1
        else if c = 0 then t.cursor.toNat + 255 else t.cursor.toNat - 1)
      cells := Function.update t.cells (if c = 0 then t.cursor.toNat + 255 else t.cursor.toNat - 1)
        (cell 0 ecx 0)
      writes := ((framebuffer_get_cursor t).row, UInt8.ofInt ((c : ℤ) - 1)) :: t.writes } := by
  have hcol := h.col_lt
  have hcursor := h.cursor
  unfold putchar put_visible
  simp only [h.row, h.col]
  rw [if_pos (by decide), if_neg (by omega), if_neg (by decide), h.move_cursor _ (by decide)]
  unfold framebuffer_write
  rw [h.address_before]
  have hend : (if c = 79 then 80 * (((r : ℤ) + 1) % 256).toNat
      else 80 * ((r : ℤ) % 256).toNat + (((c : ℤ) - 1) % 256).toNat) =
      if c = 79 then t.cursor.toNat + 1 else if c = 0 then t.cursor.toNat + 255 else t.cursor.toNat - 1 := by
    split_ifs <;> omega
  simp only [hend]

/-- A backspace in the last row or below is written in column 255. -/
theorem putchar_backspace_clear (h : At t r c) (hr : 24 ≤ r) : putchar t 8 ecx =
    { cursor := if c = 79 then 80 else 255
      cells := Function.update (framebuffer_clear t).cells (80 * r + 255) (cell 0 ecx 0)
      writes := ((framebuffer_get_cursor t).row, 255) :: t.writes } := by
  have hcell : address (framebuffer_get_cursor t).row (UInt8.ofInt (0 - 1)) = 80 * r + 255 := by
    unfold Screen.address
    rw [h.row, toNat_ofInt]
    omega
  unfold putchar put_visible
  simp only [h.row, h.col]
  rw [if_pos (by decide), if_pos (by omega), if_neg (by decide), h.move_cursor _ (by decide)]
  unfold framebuffer_write
  rw [hcell]
  by_cases hc : c = 79
  · simp only [if_pos hc]
    rfl
  · simp only [if_neg hc]
    rfl

theorem putchar_null : putchar t 0 ecx = t := rfl

end

end Screen

end KeropOS
