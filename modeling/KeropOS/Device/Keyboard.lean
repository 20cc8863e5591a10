import Mathlib.Data.List.GetD
import Mathlib.Data.List.Induction

/-!
# The keyboard
`keyboard.c`: the interrupt handler keeps the last character in a buffer of one byte, which
`get_keyboard_buffer` empties. Scancodes 0x2A and 0xAA are shift pressed and released, 0x3A is caps lock;
every other one, a key released too, stores what its table has for it.

* the four tables; `Keyboard`: the driver, and what was sent to the interrupt controllers;
* `keyboard_isr`, `get_keyboard_buffer`, `keyboard_state_activate`, `keyboard_state_deactivate`;
* `Event`, `run`: any order of these; `returned`: what the calls of `get_keyboard_buffer` give;
* `characters`: what was typed; **`keys_read_iff`**: when it is what the calls give;
* `heard`: the scancodes that arrive while the input is on; **`acknowledges_and_tracks`**.
-/

namespace KeropOS

namespace Keys

/-! ## The tables

Of 256 entries; those behind the last one listed are 0. -/

/-- Neither shift nor caps lock. -/
def keyboard_scancode_1_to_ascii_map : List UInt8 :=
  [0, 27, 49, 50, 51, 52, 53, 54, 55, 56, 57, 48, 45, 61, 8, 9, 113, 119, 101, 114, 116, 121, 117, 105, 111,
    112, 91, 93, 10, 0, 97, 115, 100, 102, 103, 104, 106, 107, 108, 59, 39, 96, 0, 92, 122, 120, 99, 118,
    98, 110, 109, 44, 46, 47, 0, 42, 0, 32, 0, 0, 0, 0, 0, 0, 0, 0, 0, 0, 0, 0, 0, 0, 0, 0, 45, 0, 0, 0, 43]

/-- Caps lock. -/
def keyboard_scancode_2_to_ascii_map : List UInt8 :=
  [0, 27, 49, 50, 51, 52, 53, 54, 55, 56, 57, 48, 45, 61, 8, 9, 81, 87, 69, 82, 84, 89, 85, 73, 79, 80, 91,
    93, 10, 0, 65, 83, 68, 70, 71, 72, 74, 75, 76, 59, 39, 96, 0, 92, 90, 88, 67, 86, 66, 78, 77, 44, 46,
    47, 0, 42, 0, 32, 0, 0, 0, 0, 0, 0, 0, 0, 0, 0, 0, 0, 0, 0, 0, 0, 45, 0, 0, 0, 43]

/-- Shift. -/
def keyboard_scancode_3_to_ascii_map : List UInt8 :=
  [0, 27, 33, 64, 35, 36, 37, 94, 38, 42, 40, 41, 95, 43, 8, 0, 81, 87, 69, 82, 84, 89, 85, 73, 79, 80, 123,
    125, 10, 0, 65, 83, 68, 70, 71, 72, 74, 75, 76, 58, 34, 126, 0, 124, 90, 88, 67, 86, 66, 78, 77, 60, 62,
    63, 0, 42, 0, 32, 0, 0, 0, 0, 0, 0, 0, 0, 0, 0, 0, 0, 0, 0, 0, 0, 45, 0, 0, 0, 43]

/-- Shift and caps lock. -/
def keyboard_scancode_4_to_ascii_map : List UInt8 :=
  [0, 27, 33, 64, 35, 36, 37, 94, 38, 42, 40, 41, 95, 43, 8, 9, 113, 119, 101, 114, 116, 121, 117, 105, 111,
    112, 123, 125, 10, 0, 97, 115, 100, 102, 103, 104, 106, 107, 108, 58, 34, 126, 0, 124, 122, 120, 99,
    118, 98, 110, 109, 60, 62, 63, 0, 42, 0, 32, 0, 0, 0, 0, 0, 0, 0, 0, 0, 0, 0, 0, 0, 0, 0, 0, 45, 0, 0,
    0, 43]

/-! ## The code -/

/-- `keyboard_state`, the static variables of `keyboard_isr`, and the ports and bytes sent to the interrupt
controllers. -/
structure Keyboard where
  keyboard_input_on : Bool
  keyboard_buffer : UInt8
  isShift : Bool
  isCapsLock : Bool
  sent : List (UInt16 × UInt8)

def PIC1_COMMAND : UInt16 := 0x20
def PIC2_COMMAND : UInt16 := 0xA0
def PIC_ACK : UInt8 := 0x20

def pic_ack (k : Keyboard) (irq : UInt8) : Keyboard :=
  { k with sent := k.sent ++ (if irq ≥ 8 then [(PIC2_COMMAND, PIC_ACK)] else []) ++
    [(PIC1_COMMAND, PIC_ACK)] }

/-- One of the four copies of the handler, which differ in their table. -/
def handle (map : List UInt8) (k : Keyboard) (scancode : UInt8) : Keyboard :=
  if scancode = 0x2A then { pic_ack k 1 with isShift := true }
  else if scancode = 0xAA then { pic_ack k 1 with isShift := false }
  else if scancode = 0x3A then { pic_ack k 1 with isCapsLock := !k.isCapsLock }
  else { pic_ack k 1 with keyboard_buffer := map.getD scancode.toNat 0 }

/-- `keyboard_isr`, of the scancode at the port. -/
def keyboard_isr (k : Keyboard) (scancode : UInt8) : Keyboard :=
  if k.keyboard_input_on then
    if k.isShift && k.isCapsLock then handle keyboard_scancode_4_to_ascii_map k scancode
    else if k.isShift && !k.isCapsLock then handle keyboard_scancode_3_to_ascii_map k scancode
    else if !k.isShift && k.isCapsLock then handle keyboard_scancode_2_to_ascii_map k scancode
    else handle keyboard_scancode_1_to_ascii_map k scancode
  else k

def keyboard_state_activate (k : Keyboard) : Keyboard := { k with keyboard_input_on := true }

def keyboard_state_deactivate (k : Keyboard) : Keyboard := { k with keyboard_input_on := false }

def get_keyboard_buffer (k : Keyboard) : UInt8 × Keyboard :=
  (k.keyboard_buffer, { k with keyboard_buffer := 0 })

/-! ## Runs -/

inductive Event
  | interrupt (scancode : UInt8)
  | get
  | activate
  | deactivate
  deriving DecidableEq

def Event.exec (k : Keyboard) : Event → Keyboard
  | .interrupt scancode => keyboard_isr k scancode
  | .get => (get_keyboard_buffer k).2
  | .activate => keyboard_state_activate k
  | .deactivate => keyboard_state_deactivate k

def run (k : Keyboard) (es : List Event) : Keyboard := es.foldl Event.exec k

/-- What the calls of `get_keyboard_buffer` give. -/
def returned (k : Keyboard) : List Event → List UInt8
  | [] => []
  | .get :: es => (get_keyboard_buffer k).1 :: returned (get_keyboard_buffer k).2 es
  | e :: es => returned (e.exec k) es

/-! ## What is typed -/

/-- The character of a scancode, with the shift and caps lock in force; 0 when it has none. -/
def character (shift caps : Bool) (scancode : UInt8) : UInt8 :=
  (match shift, caps with
    | true, true => keyboard_scancode_4_to_ascii_map
    | true, false => keyboard_scancode_3_to_ascii_map
    | false, true => keyboard_scancode_2_to_ascii_map
    | false, false => keyboard_scancode_1_to_ascii_map).getD scancode.toNat 0

/-- Shift after a scancode. -/
def shift_after (shift : Bool) (scancode : UInt8) : Bool :=
  if scancode = 0x2A then true else if scancode = 0xAA then false else shift

/-- Caps lock after a scancode. -/
def caps_after (caps : Bool) (scancode : UInt8) : Bool := if scancode = 0x3A then !caps else caps

/-- Shift or caps lock. -/
def Modifier (scancode : UInt8) : Prop := scancode = 0x2A ∨ scancode = 0xAA ∨ scancode = 0x3A

instance : DecidablePred Modifier := fun _ => by unfold Modifier; infer_instance

/-- The characters of the keys pressed, in their order. -/
def characters : (shift caps : Bool) → List Event → List UInt8
  | _, _, [] => []
  | shift, caps, .interrupt scancode :: es =>
    (if character shift caps scancode = 0 then [] else [character shift caps scancode]) ++
      characters (shift_after shift scancode) (caps_after caps scancode) es
  | shift, caps, _ :: es => characters shift caps es

/-- A call of `get_keyboard_buffer` lies between any two key-downs of characters, and behind the last;
`waiting` is whether there was a key-down and no call since. -/
def Spaced : (shift caps waiting : Bool) → List Event → Prop
  | _, _, waiting, [] => waiting = false
  | shift, caps, waiting, .interrupt scancode :: es =>
    if character shift caps scancode = 0 then
      Spaced (shift_after shift scancode) (caps_after caps scancode) waiting es
    else waiting = false ∧ Spaced (shift_after shift scancode) (caps_after caps scancode) true es
  | shift, caps, _, .get :: es => Spaced shift caps false es
  | shift, caps, waiting, _ :: es => Spaced shift caps waiting es

/-- Between a key-down of a character and the next call, no scancode arrives but those of shift and
caps lock. -/
def Undisturbed : (shift caps waiting : Bool) → List Event → Prop
  | _, _, _, [] => True
  | shift, caps, waiting, .interrupt scancode :: es =>
    if Modifier scancode then
      Undisturbed (shift_after shift scancode) (caps_after caps scancode) waiting es
    else waiting = false ∧
      Undisturbed shift caps (decide (character shift caps scancode ≠ 0)) es
  | shift, caps, _, .get :: es => Undisturbed shift caps false es
  | shift, caps, waiting, _ :: es => Undisturbed shift caps waiting es

instance decidableSpaced : ∀ shift caps waiting es, Decidable (Spaced shift caps waiting es)
  | _, _, waiting, [] => inferInstanceAs (Decidable (waiting = false))
  | shift, caps, waiting, .interrupt scancode :: es =>
    have := fun waiting =>
      decidableSpaced (shift_after shift scancode) (caps_after caps scancode) waiting es
    inferInstanceAs (Decidable (if character shift caps scancode = 0 then
        Spaced (shift_after shift scancode) (caps_after caps scancode) waiting es
      else waiting = false ∧ Spaced (shift_after shift scancode) (caps_after caps scancode) true es))
  | shift, caps, _, .get :: es => decidableSpaced shift caps false es
  | shift, caps, waiting, .activate :: es => decidableSpaced shift caps waiting es
  | shift, caps, waiting, .deactivate :: es => decidableSpaced shift caps waiting es

instance decidableUndisturbed : ∀ shift caps waiting es, Decidable (Undisturbed shift caps waiting es)
  | _, _, _, [] => inferInstanceAs (Decidable True)
  | shift, caps, waiting, .interrupt scancode :: es =>
    have := fun shift caps waiting => decidableUndisturbed shift caps waiting es
    inferInstanceAs (Decidable (if Modifier scancode then
        Undisturbed (shift_after shift scancode) (caps_after caps scancode) waiting es
      else waiting = false ∧ Undisturbed shift caps (decide (character shift caps scancode ≠ 0)) es))
  | shift, caps, _, .get :: es => decidableUndisturbed shift caps false es
  | shift, caps, waiting, .activate :: es => decidableUndisturbed shift caps waiting es
  | shift, caps, waiting, .deactivate :: es => decidableUndisturbed shift caps waiting es

/-! ## One interrupt -/

section

variable {k : Keyboard} {shift caps : Bool} {scancode : UInt8} {es : List Event}

theorem isr_off (h : k.keyboard_input_on = false) (scancode : UInt8) : keyboard_isr k scancode = k := by
  unfold keyboard_isr
  rw [h]
  rfl

theorem handle_eq (map : List UInt8) (k : Keyboard) (scancode : UInt8) : handle map k scancode =
    { k with
      keyboard_buffer := if Modifier scancode then k.keyboard_buffer else map.getD scancode.toNat 0
      isShift := shift_after k.isShift scancode
      isCapsLock := caps_after k.isCapsLock scancode
      sent := k.sent ++ [(PIC1_COMMAND, PIC_ACK)] } := by
  have hack : pic_ack k 1 = { k with sent := k.sent ++ [(PIC1_COMMAND, PIC_ACK)] } := by
    unfold pic_ack
    rw [if_neg (by decide), List.append_nil]
  unfold handle shift_after caps_after Modifier
  rw [hack]
  by_cases h1 : scancode = 0x2A
  · simp [h1]
  by_cases h2 : scancode = 0xAA
  · simp [h2]
  by_cases h3 : scancode = 0x3A
  · simp [h3]
  simp [h1, h2, h3]

/-- The four copies of the handler are one, with the table for shift and caps lock. -/
theorem isr_on (h : k.keyboard_input_on = true) (scancode : UInt8) : keyboard_isr k scancode =
    { k with
      keyboard_buffer := if Modifier scancode then k.keyboard_buffer
        else character k.isShift k.isCapsLock scancode
      isShift := shift_after k.isShift scancode
      isCapsLock := caps_after k.isCapsLock scancode
      sent := k.sent ++ [(PIC1_COMMAND, PIC_ACK)] } := by
  unfold keyboard_isr character
  rw [if_pos h]
  cases hshift : k.isShift with
  | true =>
    cases hcaps : k.isCapsLock with
    | true => simp [handle_eq, hshift, hcaps]
    | false => simp [handle_eq, hshift, hcaps]
  | false =>
    cases hcaps : k.isCapsLock with
    | true => simp [handle_eq, hshift, hcaps]
    | false => simp [handle_eq, hshift, hcaps]

theorem character_modifier (h : Modifier scancode) : character shift caps scancode = 0 := by
  rcases h with rfl | rfl | rfl
  · cases shift <;> cases caps <;> rfl
  · cases shift <;> cases caps <;> rfl
  · cases shift <;> cases caps <;> rfl

theorem shift_after_of_not (h : ¬ Modifier scancode) : shift_after shift scancode = shift := by
  unfold shift_after
  rw [if_neg fun he => h (.inl he), if_neg fun he => h (.inr (.inl he))]

theorem caps_after_of_not (h : ¬ Modifier scancode) : caps_after caps scancode = caps := by
  unfold caps_after
  rw [if_neg fun he => h (.inr (.inr he))]

end

/-! ## The characters and the calls -/

/-- A character in the buffer, and others behind it. -/
def pending (buffer : UInt8) (rest : List UInt8) : List UInt8 := (if buffer = 0 then [] else [buffer]) ++ rest

section

variable {k : Keyboard} {shift caps : Bool} {scancode : UInt8} {es : List Event}

theorem returned_get (k : Keyboard) (es : List Event) :
    returned k (.get :: es) = k.keyboard_buffer :: returned { k with keyboard_buffer := 0 } es := rfl

theorem filter_returned_get (k : Keyboard) (es : List Event) : (returned k (.get :: es)).filter (· ≠ 0) =
    pending k.keyboard_buffer ((returned { k with keyboard_buffer := 0 } es).filter (· ≠ 0)) := by
  rw [returned_get]
  unfold pending
  by_cases h : k.keyboard_buffer = 0
  · rw [if_pos h, List.filter_cons_of_neg (by simp [h]), List.nil_append]
  · rw [if_neg h, List.filter_cons_of_pos (by simp [h]), List.singleton_append]

theorem pending_inj {buffer : UInt8} {l l' : List UInt8} : pending buffer l = pending buffer l' ↔ l = l' :=
  List.append_right_inj _

theorem pending_cons {buffer : UInt8} (h : buffer ≠ 0) (l : List UInt8) : pending buffer l = buffer :: l := by
  unfold pending
  rw [if_neg h, List.singleton_append]

theorem characters_interrupt (shift caps : Bool) (scancode : UInt8) (es : List Event) :
    characters shift caps (.interrupt scancode :: es) =
      pending (character shift caps scancode)
        (characters (shift_after shift scancode) (caps_after caps scancode) es) := rfl

theorem spaced_interrupt (shift caps waiting : Bool) (scancode : UInt8) (es : List Event) :
    Spaced shift caps waiting (.interrupt scancode :: es) ↔
      if character shift caps scancode = 0 then
        Spaced (shift_after shift scancode) (caps_after caps scancode) waiting es
      else waiting = false ∧ Spaced (shift_after shift scancode) (caps_after caps scancode) true es := Iff.rfl

theorem undisturbed_interrupt (shift caps waiting : Bool) (scancode : UInt8) (es : List Event) :
    Undisturbed shift caps waiting (.interrupt scancode :: es) ↔
      if Modifier scancode then
        Undisturbed (shift_after shift scancode) (caps_after caps scancode) waiting es
      else waiting = false ∧
        Undisturbed shift caps (decide (character shift caps scancode ≠ 0)) es := Iff.rfl

/-- While a character waits, none comes. -/
theorem Spaced.no_character (h : Spaced shift caps true (.interrupt scancode :: es)) :
    character shift caps scancode = 0 := by
  by_contra hne
  rw [spaced_interrupt, if_neg hne] at h
  exact absurd h.1 (by decide)

/-- What is asked of the rest, behind a key that the buffer takes. -/
theorem Spaced.stored (hmod : ¬ Modifier scancode) (h : Spaced shift caps false (.interrupt scancode :: es)) :
    Spaced shift caps (decide (character shift caps scancode ≠ 0)) es := by
  rw [spaced_interrupt, shift_after_of_not hmod, caps_after_of_not hmod] at h
  by_cases hcharacter : character shift caps scancode = 0
  · rw [if_pos hcharacter] at h
    simpa [hcharacter] using h
  · rw [if_neg hcharacter] at h
    simpa [hcharacter] using h.2

/-- What the calls give was typed, in this order. -/
theorem returned_sublist (hon : k.keyboard_input_on = true) (hactive : .deactivate ∉ es) :
    List.Sublist ((returned k es).filter (· ≠ 0))
      (pending k.keyboard_buffer (characters k.isShift k.isCapsLock es)) := by
  induction es generalizing k with
  | nil => exact List.nil_sublist _
  | cons e es ih =>
    have hrest : .deactivate ∉ es := fun h => hactive (List.mem_cons_of_mem _ h)
    cases e with
    | interrupt scancode =>
      have hnext := isr_on hon scancode
      have hsub := @ih (keyboard_isr k scancode) (by rw [hnext]; exact hon) hrest
      show List.Sublist ((returned (keyboard_isr k scancode) es).filter (· ≠ 0)) _
      refine hsub.trans ?_
      rw [hnext]
      by_cases hmod : Modifier scancode
      · rw [characters_interrupt, character_modifier hmod]
        simp only [if_pos hmod]
        exact List.Sublist.refl _
      · simp only [if_neg hmod]
        exact List.sublist_append_right _ _
    | get =>
      rw [filter_returned_get]
      have hsub := @ih { k with keyboard_buffer := 0 } hon hrest
      exact hsub.append_left _
    | activate => exact @ih (keyboard_state_activate k) rfl hrest
    | deactivate => exact absurd (List.mem_cons_self ..) hactive

/-- **The calls give what was typed**, with what is in the buffer already: by induction on the events. -/
theorem returned_iff (hon : k.keyboard_input_on = true) (hactive : .deactivate ∉ es)
    (hspaced : Spaced k.isShift k.isCapsLock (decide (k.keyboard_buffer ≠ 0)) es) :
    (returned k es).filter (· ≠ 0) = pending k.keyboard_buffer (characters k.isShift k.isCapsLock es) ↔
      Undisturbed k.isShift k.isCapsLock (decide (k.keyboard_buffer ≠ 0)) es := by
  induction es generalizing k with
  | nil =>
    have hempty : k.keyboard_buffer = 0 := by
      have hwaiting : decide (k.keyboard_buffer ≠ 0) = false := hspaced
      simpa using hwaiting
    rw [hempty]
    exact iff_of_true rfl trivial
  | cons e es ih =>
    have hrest : .deactivate ∉ es := fun h => hactive (List.mem_cons_of_mem _ h)
    cases e with
    | interrupt scancode =>
      have hnext := isr_on hon scancode
      have hreturned : returned k (.interrupt scancode :: es) = returned (keyboard_isr k scancode) es := rfl
      have hsub := @returned_sublist (keyboard_isr k scancode) es (by rw [hnext]; exact hon) hrest
      have hiff := @ih (keyboard_isr k scancode) (by rw [hnext]; exact hon) hrest
      rw [hreturned]
      by_cases hmod : Modifier scancode
      · -- the buffer stays
        have hcharacter : character k.isShift k.isCapsLock scancode = 0 := character_modifier hmod
        rw [spaced_interrupt, if_pos hcharacter] at hspaced
        rw [hnext] at hiff ⊢
        rw [characters_interrupt, hcharacter, undisturbed_interrupt, if_pos hmod]
        simp only [if_pos hmod] at hiff ⊢
        exact hiff hspaced
      have hshift : shift_after k.isShift scancode = k.isShift := shift_after_of_not hmod
      have hcaps : caps_after k.isCapsLock scancode = k.isCapsLock := caps_after_of_not hmod
      rw [hnext] at hsub hiff ⊢
      simp only [if_neg hmod, hshift, hcaps] at hsub hiff ⊢
      rw [characters_interrupt, hshift, hcaps, undisturbed_interrupt, if_neg hmod]
      by_cases hempty : k.keyboard_buffer = 0
      · -- the buffer takes the character
        have hwaiting : decide (k.keyboard_buffer ≠ 0) = false := by simp [hempty]
        rw [hwaiting] at hspaced ⊢
        rw [hempty, and_iff_right rfl]
        exact hiff (hspaced.stored hmod)
      · -- the character in the buffer is lost
        have hwaiting : decide (k.keyboard_buffer ≠ 0) = true := by simp [hempty]
        rw [hwaiting] at hspaced ⊢
        refine iff_of_false (fun he => ?_) fun h => absurd h.1 (by decide)
        rw [he, hspaced.no_character, pending_cons hempty] at hsub
        exact absurd hsub.length_le (Nat.not_succ_le_self _)
    | get =>
      rw [filter_returned_get]
      have hiff := @ih { k with keyboard_buffer := 0 } hon hrest hspaced
      show pending k.keyboard_buffer _ = pending k.keyboard_buffer (characters k.isShift k.isCapsLock es) ↔
        Undisturbed k.isShift k.isCapsLock false es
      exact pending_inj.trans hiff
    | activate => exact @ih (keyboard_state_activate k) rfl hrest hspaced
    | deactivate => exact absurd (List.mem_cons_self ..) hactive

/-- **When no key press is lost**: with the input on and the buffer empty, and with calls that are frequent
enough, no key is released, and none pressed that has no character, before a character is fetched. -/
theorem keys_read_iff (k : Keyboard) (es : List Event) (hon : k.keyboard_input_on = true)
    (hempty : k.keyboard_buffer = 0) (hactive : .deactivate ∉ es)
    (hspaced : Spaced k.isShift k.isCapsLock false es) :
    (returned k es).filter (· ≠ 0) = characters k.isShift k.isCapsLock es ↔
      Undisturbed k.isShift k.isCapsLock false es := by
  have hwaiting : decide (k.keyboard_buffer ≠ 0) = false := by simp [hempty]
  have := returned_iff hon hactive (by rwa [hwaiting])
  rw [hwaiting] at this
  simpa [pending, hempty] using this

/-- At first the input is off, and the buffer is empty. -/
def initial : Keyboard := ⟨false, 0, false, false, []⟩

/-- `"A"` with shift, and `"b"`. -/
theorem keys_read_two : (returned (keyboard_state_activate initial)
    [.interrupt 0x2A, .interrupt 0x1E, .get, .interrupt 0xAA, .interrupt 0x30, .get]).filter (· ≠ 0) =
      characters false false
        [.interrupt 0x2A, .interrupt 0x1E, .get, .interrupt 0xAA, .interrupt 0x30, .get] :=
  (keys_read_iff (keyboard_state_activate initial)
    [.interrupt 0x2A, .interrupt 0x1E, .get, .interrupt 0xAA, .interrupt 0x30, .get] rfl rfl (by decide)
    (by decide)).mpr (by decide)

/-- `"a"` is pressed and released, and then there is a call. -/
theorem released_key_lost : Spaced false false false [.interrupt 0x1E, .interrupt 0x9E, .get] ∧
    (returned (keyboard_state_activate initial) [.interrupt 0x1E, .interrupt 0x9E, .get]).filter (· ≠ 0) ≠
      characters false false [.interrupt 0x1E, .interrupt 0x9E, .get] := by
  decide

end

/-! ## Acknowledgements and modifiers -/

/-- Whether the input is on. -/
def listening_after (on : Bool) : Event → Bool
  | .activate => true
  | .deactivate => false
  | _ => on

/-- The scancodes that arrive while the input is on. -/
def heard : (on : Bool) → List Event → List UInt8
  | _, [] => []
  | on, .interrupt scancode :: es => (if on then [scancode] else []) ++ heard on es
  | on, e :: es => heard (listening_after on e) es

/-- All scancodes that arrive. -/
def arrived (es : List Event) : List UInt8 := es.filterMap fun
  | .interrupt scancode => some scancode
  | _ => none

/-- The last scancode of a shift key. -/
def last_shift (codes : List UInt8) : Option UInt8 := (codes.filter fun c => c = 0x2A ∨ c = 0xAA).getLast?

/-- After any events from the initial state, `keyboard_isr` sends one acknowledgement when `answers` says so;
shift is on if the last of its scancodes received was 0x2A, and caps lock if 0x3A was received an odd number
of times. -/
def Keeps (answers : List Event → Bool) (received : List Event → List UInt8) : Prop :=
  ∀ es, (∀ scancode, answers es = true →
      (keyboard_isr (run initial es) scancode).sent = (run initial es).sent ++ [(PIC1_COMMAND, PIC_ACK)]) ∧
    ((run initial es).isShift = true ↔ last_shift (received es) = some 0x2A) ∧
    ((run initial es).isCapsLock = true ↔ (received es).count 0x3A % 2 = 1)

section

variable {k : Keyboard} {es : List Event} {codes : List UInt8}

theorem run_on (k : Keyboard) (es : List Event) :
    (run k es).keyboard_input_on = es.foldl listening_after k.keyboard_input_on := by
  induction es generalizing k with
  | nil => rfl
  | cons e es ih =>
    have hstep : (e.exec k).keyboard_input_on = listening_after k.keyboard_input_on e := by
      cases e with
      | interrupt scancode =>
        show (keyboard_isr k scancode).keyboard_input_on = k.keyboard_input_on
        by_cases hon : k.keyboard_input_on = true
        · rw [isr_on hon]
        · rw [isr_off (by simpa using hon)]
      | get => rfl
      | activate => rfl
      | deactivate => rfl
    exact (ih (e.exec k)).trans (by rw [hstep]; rfl)

/-- **Shift and caps lock after a run** follow the scancodes heard. -/
theorem run_modifiers (k : Keyboard) (es : List Event) :
    (run k es).isShift = (heard k.keyboard_input_on es).foldl shift_after k.isShift ∧
      (run k es).isCapsLock = (heard k.keyboard_input_on es).foldl caps_after k.isCapsLock := by
  induction es generalizing k with
  | nil => exact ⟨rfl, rfl⟩
  | cons e es ih =>
    have hrest := ih (e.exec k)
    cases e with
    | interrupt scancode =>
      have hrest : (run k (.interrupt scancode :: es)).isShift =
            (heard (keyboard_isr k scancode).keyboard_input_on es).foldl shift_after
              (keyboard_isr k scancode).isShift ∧
          (run k (.interrupt scancode :: es)).isCapsLock =
            (heard (keyboard_isr k scancode).keyboard_input_on es).foldl caps_after
              (keyboard_isr k scancode).isCapsLock := hrest
      by_cases hon : k.keyboard_input_on = true
      · rw [isr_on hon] at hrest
        simp only [hon] at hrest
        simpa only [heard, hon, if_true, List.singleton_append, List.foldl_cons] using hrest
      · rw [isr_off (by simpa using hon)] at hrest
        simpa only [heard, hon, Bool.false_eq_true, if_false, List.nil_append] using hrest
    | get => exact hrest
    | activate => exact hrest
    | deactivate => exact hrest

/-- Shift is on when the last scancode of a shift key was 0x2A. -/
theorem foldl_shift (codes : List UInt8) :
    codes.foldl shift_after false = true ↔ last_shift codes = some 0x2A := by
  induction codes using List.reverseRecOn with
  | nil => simp [last_shift]
  | append_singleton codes c ih =>
    rw [List.foldl_append, List.foldl_cons, List.foldl_nil]
    unfold last_shift at ih ⊢
    rw [List.filter_append]
    unfold shift_after
    by_cases h1 : c = 0x2A
    · subst h1
      simp
    by_cases h2 : c = 0xAA
    · subst h2
      simp
    · rw [if_neg h1, if_neg h2, List.filter_cons_of_neg (by simp [h1, h2]), List.filter_nil, List.append_nil]
      exact ih

/-- Caps lock is on when there were an odd number of its scancodes. -/
theorem foldl_caps (codes : List UInt8) : codes.foldl caps_after false = true ↔ codes.count 0x3A % 2 = 1 := by
  induction codes using List.reverseRecOn with
  | nil => simp
  | append_singleton codes c ih =>
    have hlast : ∀ caps, caps_after caps c = if c = 0x3A then !caps else caps := fun _ => rfl
    rw [List.foldl_append, List.foldl_cons, List.foldl_nil, List.count_append, hlast]
    by_cases h : c = 0x3A
    · subst h
      rw [if_pos rfl, Bool.not_eq_true', ← Bool.not_eq_true, ih, List.count_singleton_self]
      omega
    · rw [if_neg h, ih, List.count_singleton, if_neg (by simpa using h), Nat.add_zero]

/-- **Acknowledgements and modifiers**: a scancode that arrives while the input is on is acknowledged once,
and shift and caps lock follow these scancodes. -/
theorem acknowledges_and_tracks : Keeps (fun es => es.foldl listening_after false) (heard false) := by
  intro es
  obtain ⟨hshift, hcaps⟩ := run_modifiers initial es
  refine ⟨fun scancode hon => ?_, ?_, ?_⟩
  · rw [isr_on ((run_on initial es).trans hon)]
  · rw [hshift]
    exact foldl_shift _
  · rw [hcaps]
    exact foldl_caps _

/-- Shift is pressed before the input is on. -/
theorem first_shift_unheard : ¬ Keeps (fun _ => true) arrived := by
  intro h
  have := (h [.interrupt 0x2A]).2.1.mpr rfl
  exact absurd this (by decide)

end

end Keys

end KeropOS
