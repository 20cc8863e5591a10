import KeropOS.Shell.Commands
import KeropOS.Shell.Tables
import Mathlib.Data.List.GetD

/-!
# The keys that commands build from a file name

The parsers read three bytes behind the dot, and `mkdir` eight bytes, wherever the argument ends. Behind its
zero is what is left of the line.

* `typed`: an argument and what is behind it; `Token`: a name and an extension;
* `Command`, `Command.key`: the five parsers, behind the `"./"` and `"../"` of their argument;
* **`key_typed`**: the key that all of them build; `padded_iff`: when bytes behind a token do no harm;
* **`keys_of_token_iff`**: when the key is that of the token.
-/

namespace KeropOS

open Packed

/-! ## Arguments -/

/-- The memory from an argument on: its text, a zero, and what is behind. -/
def typed (text : List UInt8) (behind : Buffer) : Buffer :=
  fun a => (text ++ [0]).getD a (behind (a - (text.length + 1)))

/-- The bytes, and zeros. -/
def padded {k : ℕ} (text : List UInt8) : Bytes k := fun i => text.getD i 0

/-- A name of one to eight characters without a dot, and an extension of up to three. -/
structure Token (n e : List UInt8) : Prop where
  name_pos : n ≠ []
  name_le : n.length ≤ 8
  no_dot : 46 ∉ n
  ext_le : e.length ≤ 3
  no_zero : 0 ∉ n ++ e

/-- The text of a token. -/
def tokenText (n e : List UInt8) : List UInt8 := n ++ 46 :: e

/-- The commands that build a key, `cp` for both its arguments. -/
inductive Command
  | nano
  | rm
  | cp
  | cpDest
  | mv

/-- The key for an argument. -/
def Command.key (fuel : ℕ) (arg : Buffer) : Command → Except Trap (Option (Bytes 8 × Bytes 3))
  | nano => (destination fuel arg).map fun d => some (nano_key d.2)
  | rm => (destination fuel arg).map fun d => erem_key d.2
  | cp => .ok (cepe_key (here arg))
  | cpDest => (destination fuel arg).map fun d => cepe_dest_key d.2
  | mv => (destination fuel arg).map fun d => emvi_dest_key d.2

/-! ## What the parsers see -/

section

variable {n e t : List UInt8} {x y : Buffer} {k : ℕ}

theorem typed_of_lt (hk : k < t.length) : typed t x k = t.getD k 0 := by
  rw [typed, List.getD_append _ _ _ _ hk]
  simp [hk]

theorem typed_end : typed t x t.length = 0 := by
  simp [typed]

theorem typed_behind : typed t x (t.length + 1 + k) = x k := by
  rw [typed, List.getD_eq_default _ _ (by simp)]
  congr 1
  omega

theorem length_tokenText : (tokenText n e).length = n.length + 1 + e.length := by
  simp [tokenText]
  omega

/-- The dot of a token is behind its name. -/
theorem Token.dotAt (h : Token n e) : DotAt (typed (tokenText n e) x) n.length := by
  have hlen := length_tokenText (n := n) (e := e)
  refine ⟨h.name_le, ?_, fun j hj => ?_⟩
  · rw [typed_of_lt (by omega)]
    simp [tokenText]
  · rw [typed_of_lt (by omega), tokenText, List.getD_append _ _ _ _ hj, List.getD_eq_getElem _ _ hj]
    exact fun he => h.no_dot (he ▸ List.getElem_mem hj)

theorem Token.name_length (h : Token n e) : name_length (typed (tokenText n e) x) 10 0 = n.length :=
  (dotAt_iff.mp h.dotAt).2

/-- The name is that of the token, whatever is behind it. -/
theorem Token.dest_name (h : Token n e) : dest_name (typed (tokenText n e) x) = padded n := by
  funext i
  rw [KeropOS.dest_name, h.name_length, padded]
  split_ifs with hi
  · rw [typed_of_lt (by rw [length_tokenText]; omega), tokenText, List.getD_append _ _ _ _ hi]
  · rw [List.getD_eq_default _ _ (not_lt.mp hi)]

/-- The extension is read from behind the dot on, over the end of the token. -/
theorem Token.dest_ext (h : Token n e) (i : Fin 3) : dest_ext (typed (tokenText n e) x) i = typed e x i := by
  rw [KeropOS.dest_ext, h.name_length, typed, typed, length_tokenText, tokenText, List.append_assoc,
    List.getD_append_right _ _ _ _ (by omega)]
  have h1 : n.length + i.val + 1 - n.length = i + 1 := by omega
  have h2 : n.length + i.val + 1 - (n.length + 1 + e.length + 1) = i - (e.length + 1) := by omega
  rw [h1, h2, List.cons_append, List.getD_cons_succ]

/-- A text padded with zeros, when what is behind its end does no harm. -/
theorem padded_iff {m : ℕ} : (∀ i : Fin m, typed t x i = (padded t : Bytes m) i) ↔
    ∀ j < m - 1 - t.length, x j = 0 := by
  constructor
  · intro h j hj
    have := h ⟨t.length + 1 + j, by omega⟩
    rw [typed_behind, padded, List.getD_eq_default _ _ (by simp; omega)] at this
    exact this
  · intro h i
    rw [padded]
    rcases lt_trichotomy i.val t.length with hi | hi | hi
    · rw [typed_of_lt hi]
    · rw [hi, typed_end, List.getD_eq_default _ _ le_rfl]
    · obtain ⟨j, hj⟩ := Nat.exists_eq_add_of_lt hi
      have hji : i.val = t.length + 1 + j := by omega
      rw [hji, typed_behind, h j (by omega), List.getD_eq_default _ _ (by omega)]

/-- A name does not start with a dot. -/
theorem Token.first (h : Token n e) {b : UInt8} {s1 : List UInt8} :
    strcmp (46 :: b :: s1) (typed (tokenText n e) x) ≠ some 0 := fun hs =>
  h.dotAt.2.2 0 (List.length_pos_iff.mpr h.name_pos) (strcmp_eq_zero_iff.mp hs).1.symm

/-- No `"./"` and no `"../"` are taken from a token. -/
theorem Token.destination (h : Token n e) (fuel : ℕ) :
    here (typed (tokenText n e) x) = typed (tokenText n e) x ∧
      destination fuel (typed (tokenText n e) x) = .ok (0, typed (tokenText n e) x) := by
  have hhere : here (typed (tokenText n e) x) = typed (tokenText n e) x := by
    rw [here, dot_slash, if_neg h.first]
  refine ⟨hhere, ?_⟩
  rw [KeropOS.destination, hhere, dot_dot_slash, if_neg h.first]

theorem Token.short_file_key (h : Token n e) : short_file_key (typed (tokenText n e) x) =
    some (padded n, fun i : Fin 3 => typed e x i) := by
  rw [KeropOS.short_file_key, h.name_length, if_neg (not_lt.mpr h.name_le), file_key, h.dest_name,
    Option.some.injEq, Prod.mk.injEq]
  exact ⟨rfl, funext h.dest_ext⟩

/-- **The key that every command builds.** -/
theorem key_typed (h : Token n e) (fuel : ℕ) (c : Command) :
    c.key fuel (typed (tokenText n e) x) = .ok (some (padded n, fun i : Fin 3 => typed e x i)) := by
  obtain ⟨hhere, hdest⟩ := h.destination (x := x) fuel
  have hnano : nano_key (typed (tokenText n e) x) = (padded n, fun i : Fin 3 => typed e x i) := by
    rw [nano_key, file_key, h.dest_name]
    exact congrArg _ (funext h.dest_ext)
  cases c with
  | nano => rw [Command.key, hdest, Except.map, hnano]
  | rm => rw [Command.key, hdest, Except.map, erem_key, h.short_file_key]
  | cp => rw [Command.key, hhere, cepe_key, h.short_file_key]
  | cpDest => rw [Command.key, hdest, Except.map, cepe_dest_key, h.short_file_key]
  | mv => rw [Command.key, hdest, Except.map, emvi_dest_key, h.short_file_key]

/-- The key is that of the token. -/
theorem key_eq_iff (h : Token n e) (fuel : ℕ) (c : Command) :
    c.key fuel (typed (tokenText n e) x) = .ok (some (padded n, padded e)) ↔ ∀ j < 2 - e.length, x j = 0 := by
  rw [key_typed h, ← padded_iff (m := 3), Except.ok.injEq, Option.some.injEq, Prod.mk.injEq]
  exact ⟨fun he => congrFun he.2, fun he => ⟨rfl, funext he⟩⟩

end

/-- **When keys depend only on the token**: what is behind it starts with zeros, two without an extension and
one with an extension of one character; and for `mkdir`, as many as are missing to seven characters. -/
theorem keys_of_token_iff (x y : Buffer) (fuel : ℕ) :
    (∀ n e, Token n e →
      ((∀ c c' : Command, c.key fuel (typed (tokenText n e) x) = .ok (some (padded n, padded e)) ∧
          c'.key fuel (typed (tokenText n e) y) = .ok (some (padded n, padded e))) ↔
        ∀ j < 2 - e.length, x j = 0 ∧ y j = 0)) ∧
    ∀ t : List UInt8,
      (mkdir_name (typed t x) = padded t ∧ mkdir_name (typed t y) = padded t) ↔
        ∀ j < 7 - t.length, x j = 0 ∧ y j = 0 := by
  refine ⟨fun n e h => ?_, fun t => ?_⟩
  · simp only [key_eq_iff h]
    exact ⟨fun hk j hj => ⟨(hk .rm .rm).1 j hj, (hk .rm .rm).2 j hj⟩,
      fun hk c c' => ⟨fun j hj => (hk j hj).1, fun j hj => (hk j hj).2⟩⟩
  · rw [funext_iff, funext_iff]
    have hx := padded_iff (t := t) (x := x) (m := 8)
    have hy := padded_iff (t := t) (x := y) (m := 8)
    rw [show (∀ i, mkdir_name (typed t x) i = padded t i) ↔ _ from hx,
      show (∀ i, mkdir_name (typed t y) i = padded t i) ↔ _ from hy]
    exact ⟨fun hk j hj => ⟨hk.1 j hj, hk.2 j hj⟩, fun hk => ⟨fun j hj => (hk j hj).1,
      fun j hj => (hk j hj).2⟩⟩

/-- `"a.txt"`, with other bytes behind it. -/
theorem keys_of_text : Command.rm.key 1 (typed (tokenText [97] [116, 120, 116]) fun _ => 120) =
    Command.nano.key 1 (typed (tokenText [97] [116, 120, 116]) fun _ => 121) := by
  have h : Token [97] [116, 120, 116] := ⟨by decide, by decide, by decide, by decide, by decide⟩
  have := (((keys_of_token_iff (fun _ => 120) (fun _ => 121) 1).1 _ _ h).mpr
    fun j hj => absurd hj (Nat.not_lt_zero j)) .rm .nano
  exact this.1.trans this.2.symm

/-- `"a.c"` and `"d"`, once with zeros behind and once with `"x"`. -/
theorem keys_of_leftovers : Command.rm.key 1 (typed (tokenText [97] [99]) fun _ => 0) ≠
      Command.rm.key 1 (typed (tokenText [97] [99]) fun _ => 120) ∧
    mkdir_name (typed [100] fun _ => 0) ≠ mkdir_name (typed [100] fun _ => 120) := by
  have h : Token [97] [99] := ⟨by decide, by decide, by decide, by decide, by decide⟩
  constructor
  · rw [(key_eq_iff h 1 .rm).mpr fun _ _ => rfl]
    intro he
    exact absurd ((key_eq_iff h 1 .rm).mp he.symm 0 (by decide)) (by decide)
  · intro he
    exact absurd (congrFun he 2) (by decide)

end KeropOS
