import KeropOS.Device.Framebuffer
import Mathlib.Data.List.Induction

/-!
# The cursor on the screen
The screen has rows 0 to 24 and columns 0 to 79. `putchar` clears it when it shows a character in the last
row, but a newline goes on below, and a backspace in the first column writes in column 255, which is three
rows below.

* `Output`: a call of `putchar` or `puts`; `show_all`: calls one after the other, from the upper left corner;
* `OnScreen`: the cursor and what was written are on the screen; `Holds`: a character keeps that so;
* **`onScreen_putchar_iff`**: one character; **`cursor_on_screen_iff`**: all of them.
-/

namespace KeropOS

namespace Screen

/-! ## Calls -/

inductive Output
  | putchar (kata ecx : UInt8)
  | puts (ebx : ℕ → UInt8) (length textcolor : UInt8)

def Output.exec (t : Terminal) : Output → Terminal
  | .putchar kata ecx => Screen.putchar t kata ecx
  | .puts ebx length textcolor => Screen.puts t ebx length textcolor

/-- The characters of a call, with their colours. -/
def Output.chars : Output → List (UInt8 × UInt8)
  | .putchar kata ecx => [(kata, ecx)]
  | .puts ebx length textcolor => (List.range length.toNat).map fun i => (ebx i, textcolor)

/-- The cursor in the upper left corner, and anything on the screen. -/
def start (cells : ℕ → UInt16) : Terminal := ⟨0, cells, []⟩

def show_chars (t : Terminal) (chars : List (UInt8 × UInt8)) : Terminal :=
  chars.foldl (fun t c => putchar t c.1 c.2) t

def show_all (t : Terminal) (calls : List Output) : Terminal := calls.foldl Output.exec t

/-! ## The property -/

/-- The cursor is in rows 0 to 24 and columns 0 to 79, and so are the cells written so far. -/
def OnScreen (t : Terminal) : Prop :=
  t.cursor.toNat < 25 * 80 ∧ ∀ w ∈ t.writes, address w.1 w.2 < 25 * 80

/-- After every call, and after every character of the calls, all is on the screen. -/
structure Stays (cells : ℕ → UInt16) (calls : List Output) : Prop where
  between : ∀ front, front <+: calls → OnScreen (show_all (start cells) front)
  within : ∀ front, front <+: calls.flatMap Output.chars → OnScreen (show_chars (start cells) front)

/-- A newline is not in the last row, nor at the end of the one above; a backspace is not in the last row, and
not at the start of the two above. -/
def Fits (kata : UInt8) (t : Terminal) : Prop :=
  (kata = 10 → t.cursor.toNat < 24 * 80 - 1) ∧
    (kata = 8 → t.cursor.toNat < 24 * 80 ∧ t.cursor.toNat ≠ 22 * 80 ∧ t.cursor.toNat ≠ 23 * 80)

instance (kata : UInt8) (t : Terminal) : Decidable (Fits kata t) := by
  unfold Fits
  infer_instance

/-! ## One character -/

section

variable {t : Terminal} {kata ecx : UInt8} {r c : ℕ} {cells : ℕ → UInt16} {calls : List Output}

theorem at_of_cursor_lt (h : t.cursor.toNat < 25 * 80) :
    At t (t.cursor.toNat / 80) (t.cursor.toNat % 80) where
  row_lt := by omega
  col_lt := by omega
  cursor := by omega

theorem onScreen_iff {cursor : UInt16} {cells : ℕ → UInt16} {w : UInt8 × UInt8} (h : OnScreen t) :
    OnScreen ⟨cursor, cells, w :: t.writes⟩ ↔ cursor.toNat < 25 * 80 ∧ address w.1 w.2 < 25 * 80 := by
  unfold OnScreen
  rw [List.forall_mem_cons, and_iff_left h.2]

theorem fits_iff_of_visible (h8 : kata ≠ 8) (h10 : kata ≠ 10) : Fits kata t ↔ True :=
  iff_true_intro ⟨fun h => absurd h h10, fun h => absurd h h8⟩

theorem toNat_cursor {n : ℕ} (h : n < 65536) : (UInt16.ofNat n).toNat = n := UInt16.toNat_ofNat_of_lt' h

/-- A character that is shown. -/
theorem onScreen_print (h : OnScreen t) (h0 : kata ≠ 0) (h8 : kata ≠ 8) (h10 : kata ≠ 10) :
    OnScreen (putchar t kata ecx) := by
  have hat := at_of_cursor_lt h.1
  have hlt := h.1
  by_cases hr : t.cursor.toNat / 80 ≤ 23
  · rw [putchar_print hat hr h0 h8 h10, onScreen_iff h, toNat_cursor (by omega), hat.address]
    omega
  · rw [putchar_print_clear hat (by omega) h0 h8 h10, onScreen_iff h, hat.address]
    refine ⟨?_, hlt⟩
    split_ifs
    · decide
    · decide

theorem onScreen_newline (h : OnScreen t) : OnScreen (putchar t 10 ecx) ↔ Fits 10 t := by
  have hat := at_of_cursor_lt h.1
  have hlt := h.1
  have hfits : Fits 10 t ↔ t.cursor.toNat < 24 * 80 - 1 := by simp [Fits]
  rw [hfits, putchar_newline hat]
  unfold OnScreen
  rw [and_iff_left h.2, toNat_cursor (by split_ifs <;> omega)]
  split_ifs <;> omega

theorem onScreen_backspace (h : OnScreen t) : OnScreen (putchar t 8 ecx) ↔ Fits 8 t := by
  have hat := at_of_cursor_lt h.1
  have hlt := h.1
  have hfits : Fits 8 t ↔
      t.cursor.toNat < 24 * 80 ∧ t.cursor.toNat ≠ 22 * 80 ∧ t.cursor.toNat ≠ 23 * 80 := by simp [Fits]
  rw [hfits]
  by_cases hr : t.cursor.toNat / 80 ≤ 23
  · rw [putchar_backspace hat hr, onScreen_iff h, toNat_cursor (by split_ifs <;> omega)]
    unfold address
    rw [hat.row, toNat_ofInt]
    split_ifs <;> omega
  · rw [putchar_backspace_clear hat (by omega), onScreen_iff h]
    unfold address
    rw [hat.row, show (255 : UInt8).toNat = 255 from rfl]
    omega

/-- **One character** keeps all on the screen exactly when it fits. -/
theorem onScreen_putchar_iff (h : OnScreen t) : OnScreen (putchar t kata ecx) ↔ Fits kata t := by
  by_cases h10 : kata = 10
  · subst h10
    exact onScreen_newline h
  by_cases h8 : kata = 8
  · subst h8
    exact onScreen_backspace h
  rw [fits_iff_of_visible h8 h10, iff_true]
  by_cases h0 : kata = 0
  · rw [h0, putchar_null]
    exact h
  · exact onScreen_print h h0 h8 h10

/-! ## All characters -/

theorem show_all_eq (t : Terminal) (calls : List Output) :
    show_all t calls = show_chars t (calls.flatMap Output.chars) := by
  induction calls generalizing t with
  | nil => rfl
  | cons call calls ih =>
    have hcall : call.exec t = show_chars t call.chars := by
      cases call with
      | putchar kata ecx => rfl
      | puts ebx length textcolor =>
        unfold show_chars Output.chars
        rw [List.foldl_map]
        rfl
    show show_all (call.exec t) calls = _
    rw [ih, hcall, List.flatMap_cons]
    unfold show_chars
    rw [List.foldl_append]

theorem show_chars_snoc (t : Terminal) (chars : List (UInt8 × UInt8)) (c : UInt8 × UInt8) :
    show_chars t (chars ++ [c]) = putchar (show_chars t chars) c.1 c.2 := by
  unfold show_chars
  rw [List.foldl_append]
  rfl

theorem stays_of_chars
    (h : ∀ front, front <+: calls.flatMap Output.chars → OnScreen (show_chars (start cells) front)) :
    Stays cells calls := by
  refine ⟨fun front hpre => ?_, h⟩
  obtain ⟨rest, rfl⟩ := hpre
  rw [show_all_eq]
  apply h
  rw [List.flatMap_append]
  exact List.prefix_append _ _

/-- **The cursor stays on the screen**, and all that is written, exactly when every character fits where it is
shown. -/
theorem cursor_on_screen_iff (cells : ℕ → UInt16) (calls : List Output) : Stays cells calls ↔
    ∀ front kata ecx, front ++ [(kata, ecx)] <+: calls.flatMap Output.chars →
      Fits kata (show_chars (start cells) front) := by
  constructor
  · intro h front kata ecx hpre
    have hfront := h.within front ((List.prefix_append _ _).trans hpre)
    have hnext := h.within _ hpre
    rw [show_chars_snoc] at hnext
    exact (onScreen_putchar_iff hfront).mp hnext
  · intro h
    apply stays_of_chars
    intro front
    induction front using List.reverseRecOn with
    | nil =>
      exact fun _ => ⟨(by decide : (0 : UInt16).toNat < 25 * 80), fun w hw => absurd hw List.not_mem_nil⟩
    | append_singleton front c ih =>
      intro hpre
      rw [show_chars_snoc]
      exact (onScreen_putchar_iff (ih ((List.prefix_append _ _).trans hpre))).mpr (h front c.1 c.2 hpre)

/-- 25 newlines. -/
theorem newlines_leave : ¬ Stays (fun _ => 0) (List.replicate 25 (.putchar 10 0x0F)) := by
  intro h
  have hcursor := (h.between _ List.prefix_rfl).1
  have hrow : (show_all (start fun _ => 0) (List.replicate 25 (.putchar 10 0x0F))).cursor = 25 * 80 := by
    decide +kernel
  rw [hrow] at hcursor
  exact absurd hcursor (by decide)

end

end Screen

end KeropOS
