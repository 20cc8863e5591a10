import KeropOS.Device.Screen
import KeropOS.Proc.Kill
import KeropOS.Shell.Find
import KeropOS.Shell.Scan

/-!
# The list of processes

`printInt` and system call 20, which is the command `ps`.

* `printInt`, `ps`: the code;
* `decimal`; **`printInt_iff`**: which numbers are printed;
* `lines`; **`ps_lists`**: what `ps` prints, in every state of every run.
-/

namespace KeropOS

open PROCESS_STATE Transition

open Screen (Terminal putchar show_chars)

def BLUE : UInt8 := 0x09
def GREEN : UInt8 := 0x0A
def YELLOW : UInt8 := 0x0E

/-- The bytes of a text. -/
def ascii (text : String) : List UInt8 := text.toList.map fun c => UInt8.ofNat c.toNat

/-- `puts` of a text in memory. -/
def putText (t : Terminal) (text : String) (length textcolor : UInt8) : Terminal :=
  Screen.puts t (cstring (ascii text)) length textcolor

/-! ## The code -/

/-- The second loop of `printInt`: the digits it stores, last one first, when there is room for them. -/
def store_digits : (room num : ℕ) → Option (List UInt8)
  | 0, num => if num > 0 then none else some []
  | room + 1, num =>
    if num > 0 then (store_digits room (num / 10)).map (UInt8.ofNat (num % 10 + 48) :: ·) else some []

/-- `printInt`. What `result` has no room for would be written behind it. -/
def printInt (t : Terminal) (num : ℤ) : Option Terminal :=
  if num = 0 then some (putchar t 48 WHITE)
  else
    (store_digits 4 num.toNat).map fun result =>
      let t := putchar t (result.getD 3 0) WHITE
      let t := putchar t (result.getD 2 0) WHITE
      let t := putchar t (result.getD 1 0) WHITE
      putchar t (result.getD 0 0) WHITE

/-- The loop over the name; `i` is the character it is at. -/
def put_name (name : Packed.Bytes 32) : (rest i : ℕ) → Terminal → Terminal
  | 0, _, t => t
  | rest + 1, i, t =>
    if h : i < 32 then
      if name ⟨i, h⟩ ≠ 0 then put_name name rest (i + 1) (putchar t (name ⟨i, h⟩) WHITE) else t
    else t

/-- One process in the list. -/
def put_process (t : Terminal) (b : ProcessControlBlock) : Option Terminal :=
  let t := putText t "PROCESS INFO: \n" 15 BLUE
  let t := putText t "ID: " 4 GREEN
  (printInt t b.pid.toInt32.toInt).map fun t =>
    let t := putchar t 10 GREEN
    let t := putText t "NAME: " 7 GREEN
    let t := put_name b.name 32 0 t
    let t := putchar t 10 WHITE
    let t := putText t "STATUS: " 8 WHITE
    let t := match b.state with
      | READY => putText t "READY " 6 YELLOW
      | RUNNING => putText t "RUNNING " 8 GREEN
      | BLOCKED => putText t "BLOCKED " 8 RED
    putchar t 10 WHITE

/-- Case 20 of `syscall`. -/
def ps (t : Terminal) (s : Kernel) : Option Terminal :=
  (List.finRange 16).foldlM (fun t j =>
    if s.list_of_process j then put_process t (s.process_list j) else some t) t

/-! ## Texts in one colour -/

def coloured (text : List UInt8) (textcolor : UInt8) : List (UInt8 × UInt8) :=
  text.map fun c => (c, textcolor)

section

variable {t : Terminal} {text : List UInt8} {textcolor : UInt8}

theorem show_chars_append (t : Terminal) (cs ds : List (UInt8 × UInt8)) :
    show_chars t (cs ++ ds) = show_chars (show_chars t cs) ds := List.foldl_append ..

theorem show_chars_null (t : Terminal) (n : ℕ) (textcolor : UInt8) :
    show_chars t (List.replicate n (0, textcolor)) = t := by
  induction n with
  | zero => rfl
  | succ n ih => exact ih

/-- A `puts` that goes past the end of its text shows no more than the text. -/
theorem puts_cstring {length : UInt8} (h : text.length ≤ length.toNat) :
    Screen.puts t (cstring text) length textcolor = show_chars t (coloured text textcolor) := by
  obtain ⟨k, hk⟩ := Nat.exists_eq_add_of_le h
  have htext : ∀ i ∈ List.range text.length, (cstring text i, textcolor) = (text.getD i 0, textcolor) :=
    fun i _ => rfl
  have hchars : (List.range length.toNat).map (fun i => (cstring text i, textcolor)) =
      coloured text textcolor ++ List.replicate k (0, textcolor) := by
    apply List.ext_getElem
    · simp [coloured, hk]
    · intro i h₁ h₂
      simp only [List.getElem_map, List.getElem_range, cstring]
      by_cases hi : i < text.length
      · rw [List.getElem_append_left (by simpa [coloured] using hi)]
        simp [coloured, hi]
      · rw [List.getElem_append_right (by simpa [coloured] using hi)]
        simp [hi]
  have hputs : Screen.puts t (cstring text) length textcolor =
      show_chars t ((List.range length.toNat).map fun i => (cstring text i, textcolor)) := by
    unfold show_chars
    rw [List.foldl_map]
    rfl
  rw [hputs, hchars, show_chars_append, show_chars_null]

end

/-! ## Numbers -/

/-- The decimal numeral of an integer. -/
def decimal (num : ℤ) : List UInt8 := if num < 0 then 45 :: numeral num.natAbs else numeral num.natAbs

theorem digitChar_byte : ∀ d : Fin 10, UInt8.ofNat (Nat.digitChar d).toNat = UInt8.ofNat (d + 48) := by decide

theorem numeral_of_lt {n : ℕ} (h : n < 10) : numeral n = [UInt8.ofNat (n + 48)] := by
  rw [numeral, Nat.toDigits_of_lt_base h]
  exact congrArg (fun c => [c]) (digitChar_byte ⟨n, h⟩)

theorem numeral_of_le {n : ℕ} (h : 10 ≤ n) : numeral n = numeral (n / 10) ++ [UInt8.ofNat (n % 10 + 48)] := by
  have hdigit := digitChar_byte ⟨n % 10, Nat.mod_lt n (by decide)⟩
  rw [numeral, Nat.toDigits_of_base_le (by decide) h, List.map_append, numeral]
  exact congrArg (fun c => _ ++ [c]) hdigit

/-- There is room for the digits of smaller numbers than `10 ^ room`, and of no others. -/
theorem store_digits_eq (room : ℕ) {num : ℕ} (h : 0 < num) : store_digits room num =
    if num < 10 ^ room then some (numeral num).reverse else none := by
  induction room generalizing num with
  | zero =>
    rw [store_digits, if_pos h, if_neg (by omega)]
  | succ room ih =>
    rw [store_digits, if_pos h]
    by_cases hlt : num < 10
    · have hzero : num / 10 = 0 := Nat.div_eq_of_lt hlt
      have hpow : num < 10 ^ (room + 1) := lt_of_lt_of_le hlt (Nat.le_self_pow (by omega) 10)
      have hend : store_digits room 0 = some [] := by cases room <;> rfl
      rw [hzero, hend, if_pos hpow, numeral_of_lt hlt, Nat.mod_eq_of_lt hlt]
      rfl
    · have hten : num / 10 < 10 ^ room ↔ num < 10 ^ (room + 1) := by
        rw [Nat.div_lt_iff_lt_mul (by decide), Nat.pow_succ]
      rw [ih (by omega)]
      by_cases hpow : num < 10 ^ (room + 1)
      · rw [if_pos hpow, if_pos (hten.mpr hpow), numeral_of_le (not_lt.mp hlt), List.reverse_append]
        rfl
      · rw [if_neg hpow, if_neg (mt hten.mp hpow)]
        rfl

theorem length_numeral_le {n k : ℕ} (hk : 0 < k) (h : n < 10 ^ k) : (numeral n).length ≤ k := by
  rw [numeral, List.length_map]
  exact (Nat.length_toDigits_le_iff (by decide) hk).mpr h

/-- Four places printed from the last to the first show the digits stored in them. -/
theorem show_places (t : Terminal) {text : List UInt8} (h : text.length ≤ 4) :
    (let result := text.reverse
      let t := putchar t (result.getD 3 0) WHITE
      let t := putchar t (result.getD 2 0) WHITE
      let t := putchar t (result.getD 1 0) WHITE
      putchar t (result.getD 0 0) WHITE) = show_chars t (coloured text WHITE) := by
  match text, h with
  | [], _ => rfl
  | [_], _ => rfl
  | [_, _], _ => rfl
  | [_, _, _], _ => rfl
  | [_, _, _, _], _ => rfl

/-- A number from 0 to 9999 is printed. -/
theorem printInt_small (t : Terminal) {n : ℕ} (h : n < 10000) :
    printInt t n = some (show_chars t (coloured (numeral n) WHITE)) := by
  unfold printInt
  by_cases h0 : n = 0
  · subst h0
    rfl
  · rw [if_neg (by exact_mod_cast h0), Int.toNat_natCast, store_digits_eq 4 (by omega),
      if_pos (show n < 10 ^ 4 from h), Option.map_some, show_places t (length_numeral_le (by decide) h)]

section

variable {t : Terminal} {kata ecx : UInt8}

theorem writes_move_cursor (t : Terminal) (kata : UInt8) (c : Screen.Cursor) (newrow newcol : ℤ) :
    (Screen.move_cursor t kata c newrow newcol).writes = t.writes := by
  unfold Screen.move_cursor
  split_ifs <;> rfl

theorem length_writes_put_visible (t : Terminal) (kata ecx : UInt8) (c : Screen.Cursor) (newrow newcol : ℤ) :
    (Screen.put_visible t kata ecx c newrow newcol).writes.length = t.writes.length + 1 := by
  unfold Screen.put_visible
  split_ifs
  · rw [writes_move_cursor]
    rfl
  · rw [writes_move_cursor]
    rfl

theorem length_writes_putchar (t : Terminal) (kata ecx : UInt8) :
    (putchar t kata ecx).writes.length = t.writes.length + if kata ≠ 10 ∧ kata ≠ 0 then 1 else 0 := by
  unfold putchar
  dsimp only
  split_ifs
  · exact length_writes_put_visible _ _ _ _ _ _
  · exact length_writes_put_visible _ _ _ _ _ _
  · rw [writes_move_cursor, Nat.add_zero]

theorem length_writes_show (t : Terminal) (cs : List (UInt8 × UInt8)) :
    t.writes.length ≤ (show_chars t cs).writes.length := by
  induction cs generalizing t with
  | nil => exact Nat.le_refl _
  | cons c cs ih =>
    have hfirst := length_writes_putchar t c.1 c.2
    exact le_trans (by rw [hfirst]; exact Nat.le_add_right _ _) (ih (putchar t c.1 c.2))

end

/-- **`printInt` prints the numbers from 0 to 9999**, and no others: it shows nothing for a negative one, and
there is no room for five digits. -/
theorem printInt_iff (t : Terminal) (num : ℤ) :
    printInt t num = some (show_chars t (coloured (decimal num) WHITE)) ↔ 0 ≤ num ∧ num < 10000 := by
  constructor
  · intro h
    by_contra hno
    by_cases hneg : num < 0
    · have hnothing : printInt t num = some t := by
        unfold printInt
        rw [if_neg (by omega), Int.toNat_of_nonpos (by omega)]
        rfl
      rw [hnothing, decimal, if_pos hneg] at h
      have hminus : (putchar t 45 WHITE).writes.length = t.writes.length + 1 :=
        length_writes_putchar t 45 WHITE
      have hmore := length_writes_show (putchar t 45 WHITE) (coloured (numeral num.natAbs) WHITE)
      have heq := congrArg (fun t => t.writes.length) (Option.some.inj h)
      have hsplit : show_chars t (coloured (45 :: numeral num.natAbs) WHITE) =
          show_chars (putchar t 45 WHITE) (coloured (numeral num.natAbs) WHITE) := rfl
      simp only [hsplit] at heq
      omega
    · have hlarge : ¬ num.toNat < 10 ^ 4 := by omega
      unfold printInt at h
      rw [if_neg (by omega), store_digits_eq 4 (by omega), if_neg hlarge] at h
      exact absurd h (by simp)
  · rintro ⟨h0, hlt⟩
    obtain ⟨n, rfl⟩ := Int.eq_ofNat_of_zero_le h0
    rw [decimal, if_neg (by omega), Int.natAbs_natCast]
    exact printInt_small t (by omega)

/-! ## Processes -/

/-- The text for a state. -/
def stateText : PROCESS_STATE → List (UInt8 × UInt8)
  | READY => coloured (ascii "READY ") YELLOW
  | RUNNING => coloured (ascii "RUNNING ") GREEN
  | BLOCKED => coloured (ascii "BLOCKED ") RED

/-- What is listed for the process in slot `i`. -/
def lines (i : Fin 16) (b : ProcessControlBlock) : List (UInt8 × UInt8) :=
  coloured (ascii "PROCESS INFO: \n") BLUE ++
    (coloured (ascii "ID: ") GREEN ++
      (coloured (numeral i) WHITE ++
        (coloured [10] GREEN ++
          (coloured (ascii "NAME: ") GREEN ++
            (coloured (text_of b.name) WHITE ++
              (coloured [10] WHITE ++
                (coloured (ascii "STATUS: ") WHITE ++ (stateText b.state ++ coloured [10] WHITE))))))))

theorem putText_eq {t : Terminal} {text : String} {length textcolor : UInt8}
    (h : (ascii text).length ≤ length.toNat) :
    putText t text length textcolor = show_chars t (coloured (ascii text) textcolor) := puts_cstring h

theorem put_name_eq (name : Packed.Bytes 32) {rest i : ℕ} (h : i + rest = 32) (t : Terminal) :
    put_name name rest i t =
      show_chars t (coloured (((List.ofFn name).drop i).takeWhile (· ≠ 0)) WHITE) := by
  induction rest generalizing i t with
  | zero =>
    have hend : (List.ofFn name).drop i = [] := List.drop_eq_nil_of_le (by simp; omega)
    rw [hend]
    rfl
  | succ rest ih =>
    have hi : i < 32 := by omega
    have hlength : i < (List.ofFn name).length := by simpa using hi
    rw [put_name, dif_pos hi, List.drop_eq_getElem_cons hlength, List.getElem_ofFn]
    by_cases hzero : name ⟨i, hi⟩ ≠ 0
    · rw [if_pos hzero, ih (by omega), List.takeWhile_cons_of_pos (by simpa using hzero)]
      rfl
    · rw [if_neg hzero, List.takeWhile_cons_of_neg (by simpa using hzero)]
      rfl

theorem toInt_slot : ∀ i : Fin 16, (UInt32.ofNat i).toInt32.toInt = (i.val : ℤ) := by decide

/-- One process is listed with the number of its slot. -/
theorem put_process_eq (t : Terminal) {i : Fin 16} {b : ProcessControlBlock} (h : b.pid = UInt32.ofNat i) :
    put_process t b = some (show_chars t (lines i b)) := by
  have hpid : b.pid.toInt32.toInt = (i.val : ℤ) := by rw [h, toInt_slot]
  have hstate (t : Terminal) : (match b.state with
      | READY => putText t "READY " 6 YELLOW
      | RUNNING => putText t "RUNNING " 8 GREEN
      | BLOCKED => putText t "BLOCKED " 8 RED) = show_chars t (stateText b.state) := by
    cases b.state with
    | READY => exact putText_eq (by decide)
    | RUNNING => exact putText_eq (by decide)
    | BLOCKED => exact putText_eq (by decide)
  unfold put_process lines
  dsimp only
  rw [hpid, printInt_small _ (by omega), Option.map_some, hstate, put_name_eq b.name (by omega),
    putText_eq (by decide), putText_eq (by decide),
    putText_eq (by decide), putText_eq (by decide)]
  simp only [show_chars_append]
  rfl

/-- The loop over the slots. -/
theorem ps_loop {s : Kernel} (h : ∀ i, s.list_of_process i = true → (s.process_list i).pid = UInt32.ofNat i)
    (slots : List (Fin 16)) (t : Terminal) :
    slots.foldlM (fun t j => if s.list_of_process j then put_process t (s.process_list j) else some t) t =
      some (show_chars t ((slots.filter s.list_of_process).flatMap fun i => lines i (s.process_list i))) := by
  induction slots generalizing t with
  | nil => rfl
  | cons i slots ih =>
    rw [List.foldlM_cons]
    by_cases hi : s.list_of_process i = true
    · rw [if_pos hi, put_process_eq t (h i hi), List.filter_cons_of_pos hi, List.flatMap_cons,
        show_chars_append]
      exact ih _
    · rw [if_neg hi, List.filter_cons_of_neg hi]
      exact ih t

/-- **`ps` lists the live processes**, in the order of their slots, each with the number of its slot, its name
and its state. -/
theorem ps_lists (L : Linkage) (es : List Event) (s : Kernel) (hrun : Run (KStep L) (.initial L) es s)
    (t : Terminal) :
    ps t s = some (show_chars t (((List.finRange 16).filter s.list_of_process).flatMap
      fun i => lines i (s.process_list i))) := by
  have hs := kinv_of_run hrun
  refine ps_loop (fun i hi => ?_) _ t
  rcases hs.pid i with hpid | hnever
  · exact hpid
  · rw [hnever.dead] at hi
    exact absurd hi (by decide)

/-- The first of two processes is on the CPU. -/
theorem ps_lists_two : ∃ es s, Run (KStep someLinkage) (.initial someLinkage) es s ∧
    (List.finRange 16).filter s.list_of_process = [0, 1] ∧
    ps (Screen.start fun _ => 0) s = some (show_chars (Screen.start fun _ => 0)
      (lines 0 (s.process_list 0) ++ lines 1 (s.process_list 1))) := by
  obtain ⟨es, s, _, hrun, hq⟩ := exists_run (perform someLinkage) perform_step (fun _ _ _ => id)
    (.initial someLinkage, ()) [.create shellRequest, .create shellRequest, .tick (userCpu 0)]
    (fun _ s _ => decide ((List.finRange 16).filter s.list_of_process = [0, 1])) (by decide +kernel)
  have hlive := of_decide_eq_true hq
  have hps := ps_lists someLinkage es s hrun.unrecorded (Screen.start fun _ => 0)
  rw [hlive, List.flatMap_cons, List.flatMap_cons, List.flatMap_nil, List.append_nil] at hps
  exact ⟨es, s, hrun.unrecorded, hlive, hps⟩

end KeropOS
