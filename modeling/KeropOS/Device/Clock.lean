import KeropOS.Device.Screen
import Mathlib.Data.Fin.VecNotation
import Mathlib.Tactic.IntervalCases

/-!
# The clock
`cmos_driver.c`, the program `clock.c` and `putTime`: the hours, minutes and seconds of the real-time clock go
to the last eight cells of the screen.

* `Holds`: what the chip's registers hold at a time of day, in its four modes; `read_CMOS`;
* **`clock_shows_iff`**: when the screen shows the time seven hours on;
* **`clock_and_text_apart`**: in any order of calls, text and clock leave each other's cells alone.
-/

namespace KeropOS

namespace Screen

/-! ## The real-time clock -/

def REG_SECONDS : UInt8 := 0x00
def REG_MINUTES : UInt8 := 0x02
def REG_HOURS : UInt8 := 0x04

/-- `struct clock`. -/
structure Clock where
  second : UInt8
  minute : UInt8
  hour : UInt8

/-- `read_CMOS`, of the chip's registers. -/
def read_CMOS (get_rtc_register : UInt8 → UInt8) : Clock :=
  let second := get_rtc_register REG_SECONDS
  let minute := get_rtc_register REG_MINUTES
  let hour := get_rtc_register REG_HOURS
  let regCode := get_rtc_register 0x0B
  let (second, minute, hour) :=
    if regCode &&& 0x04 = 0 then
      ((second &&& 0x0F) + second / 16 * 10, (minute &&& 0x0F) + minute / 16 * 10,
        ((hour &&& 0x0F) + (hour &&& 0x70) / 16 * 10) ||| (hour &&& 0x80))
    else (second, minute, hour)
  let hour := if regCode &&& 0x02 = 0 ∧ hour &&& 0x80 ≠ 0 then ((hour &&& 0x7F) + 12) % 24 else hour
  { second := second, minute := minute, hour := hour }

/-- A number below 100 as the chip stores it, in binary or as two decimal digits. -/
def rtcByte (binary : Bool) (v : ℕ) : UInt8 := UInt8.ofNat (if binary then v else v / 10 * 16 + v % 10)

/-- An hour as the chip stores it: of 24, or of 12 with the top bit set after noon. -/
def rtcHour (mode24 binary : Bool) (h : ℕ) : UInt8 :=
  if mode24 then rtcByte binary h
  else rtcByte binary (if h % 12 = 0 then 12 else h % 12) ||| (if 12 ≤ h then 0x80 else 0)

/-- Register B says that hours are of 24. -/
def mode24 (regB : UInt8) : Bool := regB &&& 0x02 ≠ 0

/-- Register B says that numbers are in binary. -/
def binary (regB : UInt8) : Bool := regB &&& 0x04 ≠ 0

/-- The registers hold the time `h:m:s`, in the mode that register B says. -/
structure Holds (rtc : UInt8 → UInt8) (h m s : ℕ) : Prop where
  hour_lt : h < 24
  minute_lt : m < 60
  second_lt : s < 60
  hour : rtc REG_HOURS = rtcHour (mode24 (rtc 0x0B)) (binary (rtc 0x0B)) h
  minute : rtc REG_MINUTES = rtcByte (binary (rtc 0x0B)) m
  second : rtc REG_SECONDS = rtcByte (binary (rtc 0x0B)) s

/-- The hour that `read_CMOS` makes of an hour: twelve o'clock is told wrong when hours are of 12. -/
def readHour (mode24 : Bool) (h : ℕ) : ℕ :=
  if mode24 = true ∨ h % 12 ≠ 0 then h else if h = 0 then 12 else 0

theorem read_bcd (v : Fin 60) :
    (rtcByte false v &&& 0x0F) + rtcByte false v / 16 * 10 = UInt8.ofNat v := by
  revert v
  decide

theorem read_hour (mode24 binary : Bool) (h : Fin 24) :
    (let hour := rtcHour mode24 binary h
      let hour := if binary then hour else
        ((hour &&& 0x0F) + (hour &&& 0x70) / 16 * 10) ||| (hour &&& 0x80)
      if mode24 = false ∧ hour &&& 0x80 ≠ 0 then ((hour &&& 0x7F) + 12) % 24 else hour) =
      UInt8.ofNat (readHour mode24 h) := by
  revert mode24 binary h
  decide

/-- **What `read_CMOS` reads.** -/
theorem read_CMOS_eq {rtc : UInt8 → UInt8} {h m s : ℕ} (hr : Holds rtc h m s) :
    read_CMOS rtc = ⟨UInt8.ofNat s, UInt8.ofNat m, UInt8.ofNat (readHour (mode24 (rtc 0x0B)) h)⟩ := by
  have hhour := read_hour (mode24 (rtc 0x0B)) (binary (rtc 0x0B)) ⟨h, hr.hour_lt⟩
  have hminute := read_bcd ⟨m, hr.minute_lt⟩
  have hsecond := read_bcd ⟨s, hr.second_lt⟩
  have hmode : mode24 (rtc 0x0B) = false ↔ rtc 0x0B &&& 0x02 = 0 := by simp [mode24]
  simp only [hmode] at hhour
  unfold read_CMOS
  rw [hr.hour, hr.minute, hr.second]
  by_cases hb : rtc 0x0B &&& 0x04 = 0
  · have hbinary : binary (rtc 0x0B) = false := by simp [binary, hb]
    simp only [hbinary, hb, if_true, Bool.false_eq_true, if_false] at hhour ⊢
    rw [hminute, hsecond, hhour]
  · have hbinary : binary (rtc 0x0B) = true := by simp [binary, hb]
    simp only [hbinary, hb, if_true, if_false] at hhour ⊢
    rw [hhour]
    rfl

/-! ## The clock on the screen -/

/-- The two digits that `clock.c` makes of a number. -/
def clock_digits (v : UInt8) : Fin 2 → UInt8 := ![v / 10 + 48, v % 10 + 48]

def putTime (t : Terminal) (hour min sec : Fin 2 → UInt8) (titik : UInt8) : Terminal :=
  let t := framebuffer_write t 24 72 (hour 0) 0x0B 0
  let t := framebuffer_write t 24 73 (hour 1) 0x0B 0
  let t := framebuffer_write t 24 74 titik 0x0B 0
  let t := framebuffer_write t 24 75 (min 0) 0x0B 0
  let t := framebuffer_write t 24 76 (min 1) 0x0B 0
  let t := framebuffer_write t 24 77 titik 0x0B 0
  let t := framebuffer_write t 24 78 (sec 0) 0x0B 0
  framebuffer_write t 24 79 (sec 1) 0x0B 0

/-- One round of the loop of `clock.c`; the time zone is seven hours ahead of the chip. -/
def clock_round (t : Terminal) (rtc : UInt8 → UInt8) : Terminal :=
  let c := read_CMOS rtc
  let hour := UInt8.ofNat ((c.hour.toNat + 7) % 24)
  putTime t (clock_digits hour) (clock_digits c.minute) (clock_digits c.second) 58

/-- The cells of the clock. -/
def ClockCell (a : ℕ) : Prop := 24 * 80 + 72 ≤ a ∧ a < 25 * 80

instance : DecidablePred ClockCell := fun _ => inferInstanceAs (Decidable (_ ∧ _))

/-- What `putTime` shows, from left to right. -/
def timeChars (hour min sec : Fin 2 → UInt8) (titik : UInt8) : List UInt8 :=
  [hour 0, hour 1, titik, min 0, min 1, titik, sec 0, sec 1]

/-- **`putTime` writes the clock's cells** and no other, and leaves the cursor. -/
theorem putTime_eq (t : Terminal) (hour min sec : Fin 2 → UInt8) (titik : UInt8) :
    (putTime t hour min sec titik).cursor = t.cursor ∧
      ∀ a, (putTime t hour min sec titik).cells a =
        if ClockCell a then cell ((timeChars hour min sec titik).getD (a - (24 * 80 + 72)) 0) 0x0B 0
        else t.cells a := by
  refine ⟨rfl, fun a => ?_⟩
  simp only [putTime, framebuffer_write, Function.update_apply]
  by_cases h : ClockCell a
  · rw [if_pos h]
    obtain ⟨k, rfl⟩ : ∃ k, a = 1992 + k := ⟨a - 1992, by have := h.1; omega⟩
    have hk : k < 8 := by have := h.2; omega
    interval_cases k <;> rfl
  · rw [if_neg h]
    have hne : ∀ col : UInt8, 72 ≤ col.toNat → col.toNat < 80 → a ≠ address 24 col := by
      intro col h72 h80 ha
      apply h
      rw [ha]
      exact ⟨Nat.add_le_add_left h72 _, Nat.add_lt_add_left h80 _⟩
    simp only [hne _ (by decide : 72 ≤ (72 : UInt8).toNat) (by decide), if_false,
      hne 73 (by decide) (by decide), hne 74 (by decide) (by decide), hne 75 (by decide) (by decide),
      hne 76 (by decide) (by decide), hne 77 (by decide) (by decide), hne 78 (by decide) (by decide),
      hne 79 (by decide) (by decide)]

/-- A number below 100 in two digits. -/
def twoDigits (n : ℕ) : List UInt8 := [UInt8.ofNat (48 + n / 10), UInt8.ofNat (48 + n % 10)]

/-- The last eight cells show `h:m:s`. -/
def ShowsTime (t : Terminal) (h m s : ℕ) : Prop :=
  ∀ i < 8, t.cells (24 * 80 + 72 + i) =
    cell ((twoDigits h ++ 58 :: twoDigits m ++ 58 :: twoDigits s).getD i 0) 0x0B 0

theorem clock_digits_eq (v : Fin 60) :
    clock_digits (UInt8.ofNat v) 0 = UInt8.ofNat (48 + v / 10) ∧
      clock_digits (UInt8.ofNat v) 1 = UInt8.ofNat (48 + v % 10) := by
  revert v
  decide

theorem hour_ahead {h : ℕ} (hh : h < 24) :
    UInt8.ofNat (((UInt8.ofNat h).toNat + 7) % 24) = UInt8.ofNat ((h + 7) % 24) := by
  rw [UInt8.toNat_ofNat', Nat.mod_eq_of_lt (by omega : h < 2 ^ 8)]

theorem readHour_lt {h : ℕ} (hh : h < 24) (mode24 : Bool) : readHour mode24 h < 24 := by
  unfold readHour
  split_ifs <;> omega

/-- The digits of the hour that was read are shown, and those of the minute and the second. -/
theorem showsTime_round {t : Terminal} {rtc : UInt8 → UInt8} {h m s : ℕ} (hr : Holds rtc h m s) :
    ShowsTime (clock_round t rtc) ((readHour (mode24 (rtc 0x0B)) h + 7) % 24) m s := by
  have hread := readHour_lt hr.hour_lt (mode24 (rtc 0x0B))
  obtain ⟨h0, h1⟩ := clock_digits_eq ⟨(readHour (mode24 (rtc 0x0B)) h + 7) % 24, by omega⟩
  obtain ⟨m0, m1⟩ := clock_digits_eq ⟨m, hr.minute_lt⟩
  obtain ⟨s0, s1⟩ := clock_digits_eq ⟨s, hr.second_lt⟩
  have hahead := hour_ahead hread
  intro i hi
  have hcell : ClockCell (24 * 80 + 72 + i) := ⟨by omega, by omega⟩
  unfold clock_round
  rw [read_CMOS_eq hr, (putTime_eq _ _ _ _ _).2, if_pos hcell, Nat.add_sub_cancel_left]
  simp only [hahead, timeChars, h0, h1, m0, m1, s0, s1]
  rfl

/-- **The screen shows the time, seven hours on**, if and only if the chip counts 24 hours or it is not
twelve o'clock. -/
theorem clock_shows_iff (t : Terminal) (rtc : UInt8 → UInt8) (h m s : ℕ) (hr : Holds rtc h m s) :
    ShowsTime (clock_round t rtc) ((h + 7) % 24) m s ↔ mode24 (rtc 0x0B) = true ∨ h % 12 ≠ 0 := by
  have hshows := showsTime_round (t := t) hr
  constructor
  · intro hdue
    by_contra hno
    have hfirst := (hshows 0 (by decide)).symm.trans (hdue 0 (by decide))
    have hlt := hr.hour_lt
    rw [readHour, if_neg hno] at hfirst
    have hcases : h = 0 ∨ h = 12 := by
      have := not_or.mp hno
      omega
    -- the first digit of 19 for that of 07, and the other way round
    rcases hcases with rfl | rfl
    · exact absurd (show cell 49 0x0B 0 = cell 48 0x0B 0 from hfirst) (by decide)
    · exact absurd (show cell 48 0x0B 0 = cell 49 0x0B 0 from hfirst) (by decide)
  · intro hyes
    rw [readHour, if_pos hyes] at hshows
    exact hshows

/-- Half past eight in the evening, in binary and of 24 hours. -/
theorem clock_shows_iff_evening :
    ShowsTime (clock_round (start fun _ => 0) fun r => if r = 4 then 20 else if r = 2 then 30 else
      if r = 0 then 0 else 6) 3 30 0 := by
  have hr : Holds (fun r => if r = 4 then 20 else if r = 2 then 30 else if r = 0 then 0 else 6) 20 30 0 :=
    ⟨by decide, by decide, by decide, by decide, by decide, by decide⟩
  exact (clock_shows_iff (start fun _ => 0) _ 20 30 0 hr).mpr (.inl (by decide))

/-! ## Text and clock together -/

/-- What reaches the screen: text, the call that clears it, and the clock. -/
inductive Call
  | text (o : Output)
  | clear
  | time (hour min sec : Fin 2 → UInt8) (titik : UInt8)

def Call.exec (t : Terminal) : Call → Terminal
  | .text o => o.exec t
  | .clear => framebuffer_set_cursor (framebuffer_clear t) 0 0
  | .time hour min sec titik => putTime t hour min sec titik

/-- A call of the clock. -/
def Call.isTime : Call → Bool
  | .time _ _ _ _ => true
  | _ => false

/-- Calls one after the other, from the upper left corner. -/
def shown (cells : ℕ → UInt16) (calls : List Call) : Terminal := calls.foldl Call.exec (start cells)

/-- The same cursor, and the same cells but for the clock's. -/
structure SameText (t u : Terminal) : Prop where
  cursor : t.cursor = u.cursor
  cells : ∀ a, ¬ ClockCell a → t.cells a = u.cells a

/-- The clock's cells are the same. -/
def SameClock (t u : Terminal) : Prop := ∀ a, ClockCell a → t.cells a = u.cells a

/-- In the last row, the cursor is in column 0 or 15, as wrapping and the backspace leave it. -/
def Parked (cursor : UInt16) : Prop :=
  cursor.toNat / 80 % 256 = 24 → cursor.toNat % 80 = 0 ∨ cursor.toNat % 80 = 15

namespace SameText

variable {t u : Terminal}

theorem get_cursor (h : SameText t u) : framebuffer_get_cursor t = framebuffer_get_cursor u := by
  unfold framebuffer_get_cursor
  rw [h.cursor]

theorem set_cursor (h : SameText t u) (r c : UInt8) :
    SameText (framebuffer_set_cursor t r c) (framebuffer_set_cursor u r c) := ⟨rfl, h.cells⟩

theorem write (h : SameText t u) (row col c fg bg : UInt8) :
    SameText (framebuffer_write t row col c fg bg) (framebuffer_write u row col c fg bg) where
  cursor := h.cursor
  cells a ha := by
    simp only [framebuffer_write, Function.update_apply]
    split_ifs
    · rfl
    · exact h.cells a ha

theorem clear (h : SameText t u) : SameText (framebuffer_clear t) (framebuffer_clear u) where
  cursor := h.cursor
  cells a ha := by
    simp only [framebuffer_clear]
    split_ifs
    · rfl
    · exact h.cells a ha

theorem move_cursor (h : SameText t u) (kata : UInt8) (c : Cursor) (newrow newcol : ℤ) :
    SameText (Screen.move_cursor t kata c newrow newcol) (Screen.move_cursor u kata c newrow newcol) := by
  unfold Screen.move_cursor
  split_ifs
  · exact h.set_cursor _ _
  · exact h.set_cursor _ _
  · exact h

theorem put_visible (h : SameText t u) (kata ecx : UInt8) (c : Cursor) (newrow newcol : ℤ) :
    SameText (Screen.put_visible t kata ecx c newrow newcol)
      (Screen.put_visible u kata ecx c newrow newcol) := by
  unfold Screen.put_visible
  split_ifs
  · exact (h.write _ _ _ _ _).move_cursor _ _ _ _
  · exact (h.write _ _ _ _ _).move_cursor _ _ _ _

/-- **A character** does the same to both. -/
theorem putchar (h : SameText t u) (kata ecx : UInt8) :
    SameText (Screen.putchar t kata ecx) (Screen.putchar u kata ecx) := by
  unfold Screen.putchar
  rw [h.get_cursor]
  dsimp only
  split_ifs
  · exact h.clear.put_visible _ _ _ _ _
  · exact h.put_visible _ _ _ _ _
  · exact h.move_cursor _ _ _ _

end SameText

section

variable {t : Terminal} {kata ecx : UInt8} {c : Cursor} {newrow newcol : ℤ}

theorem row_eq (t : Terminal) : (framebuffer_get_cursor t).row.toNat = t.cursor.toNat / 80 % 256 :=
  UInt8.toNat_ofNat'

theorem col_eq (t : Terminal) : (framebuffer_get_cursor t).col.toNat = t.cursor.toNat % 80 := by
  have hlt : t.cursor.toNat % 80 < 80 := Nat.mod_lt _ (by decide)
  exact (UInt8.toNat_ofNat').trans (Nat.mod_eq_of_lt (by omega))

theorem parked_set_cursor (t : Terminal) {r c : UInt8}
    (h : c.toNat = 0 ∨ c.toNat = 255 ∨ (r.toNat ≤ 23 ∧ c.toNat ≤ 79)) :
    Parked (framebuffer_set_cursor t r c).cursor := by
  have hr := r.toNat_lt
  have hc := c.toNat_lt
  have hpos : (framebuffer_set_cursor t r c).cursor.toNat = r.toNat * 80 + c.toNat :=
    UInt16.toNat_ofNat_of_lt' (by simp only [UInt16.size]; omega)
  unfold Parked
  rw [hpos]
  omega

theorem move_cursor_cells : (move_cursor t kata c newrow newcol).cells = t.cells := by
  unfold move_cursor
  split_ifs <;> rfl

/-- The end of `putchar` parks the cursor, where the new column is 0 or 255, or the row is above the
last and the column on the screen. -/
theorem parked_move_cursor (hp : Parked t.cursor)
    (h : c.col ≠ 79 → newcol = 0 ∨ newcol = -1 ∨ (0 ≤ newrow ∧ newrow ≤ 23 ∧ 0 ≤ newcol ∧ newcol ≤ 79)) :
    Parked (move_cursor t kata c newrow newcol).cursor := by
  unfold move_cursor
  split_ifs with hk hc
  · exact parked_set_cursor t (.inl rfl)
  · apply parked_set_cursor t
    rw [toNat_ofInt, toNat_ofInt]
    have := h hc
    omega
  · exact hp

theorem sameClock_write {row col : UInt8} (h : ¬ ClockCell (address row col)) (x fg bg : UInt8) :
    SameClock (framebuffer_write t row col x fg bg) t := by
  intro a ha
  have hne : a ≠ address row col := by
    rintro rfl
    exact h ha
  exact Function.update_of_ne hne _ _

theorem sameClock_clear : SameClock (framebuffer_clear t) t := by
  intro a ha
  have := ha.1
  exact if_neg (by omega)

/-- A character that is shown stays off the clock, where the cells it may write do. -/
theorem put_visible_off_clock (t : Terminal) (kata ecx : UInt8) (hp : Parked t.cursor)
    (hprint : ¬ ClockCell (address c.row c.col))
    (hback : ¬ ClockCell (address c.row (UInt8.ofInt (newcol - 1))))
    (hend : c.col ≠ 79 → newcol = 0 ∧ newrow = 0 ∨
      (0 ≤ newrow ∧ newrow ≤ 23 ∧ 0 ≤ newcol ∧ newcol ≤ 78)) :
    SameClock (put_visible t kata ecx c newrow newcol) t ∧
      Parked (put_visible t kata ecx c newrow newcol).cursor := by
  unfold put_visible SameClock
  by_cases h8 : kata ≠ 8
  · rw [if_pos h8, move_cursor_cells]
    refine ⟨sameClock_write hprint _ _ _, parked_move_cursor hp fun h => ?_⟩
    have := hend h
    omega
  · rw [if_neg h8, move_cursor_cells]
    refine ⟨sameClock_write hback _ _ _, parked_move_cursor hp fun h => ?_⟩
    have := hend h
    omega

/-- **Text stays off the clock**: a character leaves the clock's cells, and the cursor parked. -/
theorem putchar_off_clock (hp : Parked t.cursor) (kata ecx : UInt8) :
    SameClock (putchar t kata ecx) t ∧ Parked (putchar t kata ecx).cursor := by
  have hrow := row_eq t
  have hcol := col_eq t
  have hcol79 : (framebuffer_get_cursor t).col ≠ 79 → t.cursor.toNat % 80 ≠ 79 :=
    fun h h79 => h (UInt8.toNat_inj.mp (hcol.trans h79))
  have hprint : ¬ ClockCell (address (framebuffer_get_cursor t).row (framebuffer_get_cursor t).col) := by
    unfold ClockCell address
    unfold Parked at hp
    omega
  unfold putchar
  dsimp only
  by_cases hvisible : kata ≠ 10 ∧ kata ≠ 0
  · rw [if_pos hvisible]
    by_cases hlow : ((framebuffer_get_cursor t).row.toNat : ℤ) > 23
    · rw [if_pos hlow]
      have hback : ¬ ClockCell (address (framebuffer_get_cursor t).row (UInt8.ofInt (0 - 1))) := by
        unfold ClockCell address
        rw [toNat_ofInt]
        omega
      obtain ⟨hclock, hparked⟩ :=
        put_visible_off_clock (framebuffer_clear t) kata ecx hp hprint hback fun _ => .inl ⟨rfl, rfl⟩
      exact ⟨fun a ha => (hclock a ha).trans (sameClock_clear a ha), hparked⟩
    · rw [if_neg hlow]
      have hback : ¬ ClockCell (address (framebuffer_get_cursor t).row
          (UInt8.ofInt ((framebuffer_get_cursor t).col.toNat - 1))) := by
        unfold ClockCell address
        rw [toNat_ofInt, hcol, hrow]
        -- a backspace at column 0 goes for column 255
        by_cases h0 : t.cursor.toNat % 80 = 0
        · rw [h0]
          norm_num
          omega
        · omega
      refine put_visible_off_clock t kata ecx hp hprint hback fun h => .inr ?_
      have := hcol79 h
      omega
  · rw [if_neg hvisible]
    exact ⟨fun a _ => congrFun move_cursor_cells a, parked_move_cursor hp fun _ => .inl rfl⟩

/-- A call of `putchar` or `puts` too. -/
theorem output_off_clock (hp : Parked t.cursor) (o : Output) :
    SameClock (o.exec t) t ∧ Parked (o.exec t).cursor := by
  cases o with
  | putchar kata ecx => exact putchar_off_clock hp kata ecx
  | puts ebx length textcolor =>
    simp only [Output.exec, puts]
    induction length.toNat with
    | zero => exact ⟨fun _ _ => rfl, hp⟩
    | succ n ih =>
      rw [List.range_succ, List.foldl_concat]
      obtain ⟨hclock, hparked⟩ := putchar_off_clock ih.2 (ebx n) textcolor
      exact ⟨fun a ha => (hclock a ha).trans (ih.1 a ha), hparked⟩

theorem SameText.output {u : Terminal} (h : SameText t u) (o : Output) : SameText (o.exec t) (o.exec u) := by
  cases o with
  | putchar kata ecx => exact h.putchar kata ecx
  | puts ebx length textcolor =>
    simp only [Output.exec, puts]
    induction length.toNat with
    | zero => exact h
    | succ n ih =>
      rw [List.range_succ, List.foldl_concat, List.foldl_concat]
      exact ih.putchar (ebx n) textcolor

end

theorem shown_concat (cells : ℕ → UInt16) (calls : List Call) (call : Call) :
    shown cells (calls ++ [call]) = call.exec (shown cells calls) := List.foldl_concat ..

/-- **Text and clock leave each other alone**, in any order of calls: the cursor and the other cells are as if
there were no clock, and the clock's cells as if there were nothing else. -/
theorem clock_and_text_apart (cells : ℕ → UInt16) (calls : List Call) :
    SameText (shown cells calls) (shown cells (calls.filter fun c => !c.isTime)) ∧
      SameClock (shown cells calls) (shown cells (calls.filter Call.isTime)) := by
  -- the cursor is parked after every call
  suffices h : Parked (shown cells calls).cursor ∧
      SameText (shown cells calls) (shown cells (calls.filter fun c => !c.isTime)) ∧
      SameClock (shown cells calls) (shown cells (calls.filter Call.isTime)) from h.2
  induction calls using List.reverseRecOn with
  | nil => exact ⟨fun h => absurd (show 0 / 80 % 256 = 24 from h) (by decide), ⟨rfl, fun _ _ => rfl⟩,
      fun _ _ => rfl⟩
  | append_singleton calls call ih =>
    obtain ⟨hp, htext, hclock⟩ := ih
    rw [shown_concat, List.filter_append, List.filter_append]
    cases call with
    | text o =>
      obtain ⟨hoff, hparked⟩ := output_off_clock hp o
      refine ⟨hparked, ?_, fun a ha => ?_⟩
      · exact (shown_concat cells _ (.text o)).symm ▸ htext.output o
      · rw [show [Call.text o].filter Call.isTime = [] from rfl, List.append_nil]
        exact (hoff a ha).trans (hclock a ha)
    | clear =>
      refine ⟨parked_set_cursor _ (.inl rfl), ?_, fun a ha => ?_⟩
      · exact (shown_concat cells _ .clear).symm ▸ htext.clear.set_cursor 0 0
      · rw [show [Call.clear].filter Call.isTime = [] from rfl, List.append_nil]
        exact (sameClock_clear a ha).trans (hclock a ha)
    | time hour min sec titik =>
      refine ⟨hp, ⟨?_, fun a ha => ?_⟩, fun a ha => ?_⟩
      · rw [show [Call.time hour min sec titik].filter (fun c => !c.isTime) = [] from rfl, List.append_nil]
        exact htext.cursor
      · rw [show [Call.time hour min sec titik].filter (fun c => !c.isTime) = [] from rfl, List.append_nil]
        exact ((putTime_eq _ _ _ _ _).2 a).trans ((if_neg ha).trans (htext.cells a ha))
      · rw [show [Call.time hour min sec titik].filter Call.isTime = [Call.time hour min sec titik] from rfl,
          shown_concat]
        exact ((putTime_eq _ _ _ _ _).2 a).trans
          ((if_pos ha).trans ((if_pos ha).symm.trans ((putTime_eq _ _ _ _ _).2 a).symm))

end Screen

end KeropOS
