import KeropOS.Proc.Table
import KeropOS.Shell.Tables

/-!
# The command `kill`

System call 21 reads a number from the first two characters of its argument, looks at the name in that slot
of `_process_list`, and destroys the process unless the name is `"shell"`. What it prints is a text; the
clock that it wipes off the screen for a process named `"clock"` is not modelled.

* `syscall_kill`;
* `numeral`, `KillsSoundly`: what the call may destroy; `Reads`: the number the two characters stand for;
* `piddd_eq_iff`, **`syscall_kill_eq`**: the call by the slot it looks at;
* **`kill_sound_iff`**: when it does as it should.
-/

namespace KeropOS

open Transition

/-! ## The call -/

/-- `"shell"`. -/
def shell_name : List UInt8 := [115, 104, 101, 108, 108, 0]

/-- The number read from the argument, an `int8_t`. -/
def piddd (arg : Buffer) : UInt8 := if arg 1 ≠ 0 then (arg 0 - 48) * 10 + (arg 1 - 48) else arg 0 - 48

/-- Case 21 of `syscall`; `arg` is the memory from the address in `ebx` on. -/
def syscall_kill (L : Linkage) (s : Kernel) (arg : Buffer) : Except Trap (String × Kernel) :=
  let index := (piddd arg).toInt8.toInt
  if h : 0 ≤ index ∧ index < 16 then
    let pcb := s.process_list ⟨index.toNat, by omega⟩
    match strcmp (List.ofFn pcb.name) (cstring shell_name) with
    | none => .error .outOfBounds
    | some difference =>
      if difference ≠ 0 then
        match process_destroy L s (UInt32.ofInt index) with
        | .error t => .error t
        | .ok (retcode, s) =>
          .ok (if retcode then "Proses Berhasil dihapus!\n" else "Proses Tidak Berhasil dihapus!\n", s)
      else .ok ("Proses Shell tidak Diizinkan untuk Dihapus!\n", s)
  else .error .outOfBounds

/-! ## The property -/

/-- The decimal numeral of a number. -/
def numeral (n : ℕ) : List UInt8 := (Nat.toDigits 10 n).map fun c => UInt8.ofNat c.toNat

/-- The process is named `"shell"`. -/
def NamedShell (b : ProcessControlBlock) : Prop := ∀ k : Fin 32, k.val < 6 → b.name k = cstring shell_name k

/-- Nothing happens, or a live process not named `"shell"`, of which the argument is the number, is
destroyed. -/
def KillsSoundly (L : Linkage) (s : Kernel) (arg : Buffer) (s' : Kernel) : Prop :=
  s' = s ∨ ∃ q : Fin 16, IsString arg (numeral q) ∧ s.list_of_process q = true ∧
    ¬ NamedShell (s.process_list q) ∧ process_destroy L s (UInt32.ofNat q) = .ok (true, s')

/-- The first character is digit `p`, and the string ends behind it, or the first two are the digits of `p`
modulo 256; they need not be between `'0'` and `'9'`. -/
def Reads (arg : Buffer) (p : Fin 16) : Prop :=
  if arg 1 = 0 then (arg 0).toNat = 48 + p else (10 * (arg 0).toNat + (arg 1).toNat) % 256 = 16 + p

instance (arg : Buffer) (p : Fin 16) : Decidable (Reads arg p) := by
  unfold Reads
  infer_instance

/-! ## The number -/

theorem toInt_of_byte : ∀ n : Fin 256,
    (UInt8.ofFin n).toInt8.toInt = if n.val < 128 then (n.val : ℤ) else n.val - 256 := by
  decide +kernel

theorem toInt_toInt8 (c : UInt8) : c.toInt8.toInt = if c.toNat < 128 then (c.toNat : ℤ) else c.toNat - 256 :=
  toInt_of_byte c.toFin

theorem toInt_eq_iff {c : UInt8} {p : Fin 16} : c.toInt8.toInt = (p.val : ℤ) ↔ c.toNat = p := by
  have := c.toNat_lt
  have := p.isLt
  rw [toInt_toInt8]
  split_ifs <;> omega

theorem piddd_eq_iff {arg : Buffer} {p : Fin 16} : (piddd arg).toInt8.toInt = (p.val : ℤ) ↔ Reads arg p := by
  have h48 : (48 : UInt8).toNat = 48 := rfl
  have h10 : (10 : UInt8).toNat = 10 := rfl
  have h0 := (arg 0).toNat_lt
  have h1 := (arg 1).toNat_lt
  have hp := p.isLt
  rw [toInt_eq_iff, piddd, Reads]
  by_cases hend : arg 1 = 0
  · rw [if_neg (not_not.mpr hend), if_pos hend, UInt8.toNat_sub, h48]
    omega
  · rw [if_pos hend, if_neg hend, UInt8.toNat_add, UInt8.toNat_mul, UInt8.toNat_sub, UInt8.toNat_sub,
      h48, h10]
    omega

theorem Reads.unique {arg : Buffer} {p q : Fin 16} (hp : Reads arg p) (hq : Reads arg q) : p = q := by
  have := (piddd_eq_iff.mpr hp).symm.trans (piddd_eq_iff.mpr hq)
  exact Fin.ext (by omega)

/-- One digit, or two of which the first is 1. -/
theorem numeral_eq : ∀ p : Fin 16, numeral p =
    if p.val < 10 then [48 + UInt8.ofNat p] else [49, 38 + UInt8.ofNat p] := by decide

theorem digit_toNat : ∀ p : Fin 16, (48 + UInt8.ofNat p).toNat = 48 + p ∧
    (38 + UInt8.ofNat p).toNat = 38 + p := by
  decide

/-- A numeral stands for its number. -/
theorem reads_of_numeral {arg : Buffer} {p : Fin 16} (h : IsString arg (numeral p)) : Reads arg p := by
  obtain ⟨htext, -, hend⟩ := h
  obtain ⟨hone, htwo⟩ := digit_toNat p
  simp only [numeral_eq] at htext hend
  rw [Reads]
  split_ifs at htext hend with hp
  · have h0 : arg 0 = 48 + UInt8.ofNat p := htext 0 (Nat.succ_pos _)
    have h1 : arg 1 = 0 := hend
    rw [if_pos h1, h0, hone]
  · have h0 : arg 0 = 49 := htext 0 (Nat.succ_pos _)
    have h1 : arg 1 = 38 + UInt8.ofNat p := htext 1 (Nat.lt_succ_self _)
    have hne : arg 1 ≠ 0 := by
      intro he
      rw [he] at h1
      rw [← h1] at htwo
      exact absurd htwo (by rw [UInt8.toNat_zero]; omega)
    have h49 : (49 : UInt8).toNat = 49 := rfl
    have := p.isLt
    rw [if_neg hne, h0, h1, htwo, h49]
    omega

/-! ## The slot -/

section

variable {L : Linkage} {s s' : Kernel} {arg : Buffer} {p : Fin 16}

/-- The name test ends at the zero of `"shell"`. -/
theorem strcmp_shell (b : ProcessControlBlock) :
    ∃ c, strcmp (List.ofFn b.name) (cstring shell_name) = some c :=
  strcmp_ends (n := 4) rfl (by rw [List.length_ofFn]; decide)

theorem strcmp_of_namedShell {b : ProcessControlBlock} (h : NamedShell b) :
    strcmp (List.ofFn b.name) (cstring shell_name) = some 0 := by
  have hbyte : ∀ k, (hk : k < 6) → (List.ofFn b.name)[k]? = some (cstring shell_name k) := fun k hk => by
    rw [List.getElem?_ofFn, dif_pos (by omega), h ⟨k, by omega⟩ hk]
  exact strcmp_of_prefix (n := 4) (fun k hk => hbyte k (by omega)) (hbyte 5 (by decide))

/-- The name of slot `p` passes for `"shell"`. -/
def Spared (s : Kernel) (p : Fin 16) : Prop :=
  strcmp (List.ofFn (s.process_list p).name) (cstring shell_name) = some 0

theorem ofInt_slot : ∀ p : Fin 16, UInt32.ofInt (p.val : ℤ) = UInt32.ofNat p := by decide

/-- **What the call does with the slot it looks at.** -/
theorem syscall_kill_eq (h : Reads arg p) (L : Linkage) (s : Kernel) :
    (Spared s p ∧ syscall_kill L s arg = .ok ("Proses Shell tidak Diizinkan untuk Dihapus!\n", s)) ∨
    (¬ Spared s p ∧ syscall_kill L s arg =
      match process_destroy L s (UInt32.ofNat p) with
      | .error t => .error t
      | .ok (retcode, s) =>
        .ok (if retcode then "Proses Berhasil dihapus!\n" else "Proses Tidak Berhasil dihapus!\n", s)) := by
  have hindex := piddd_eq_iff.mpr h
  have hp := p.isLt
  have hfin : ∀ hlt, (⟨(p.val : ℤ).toNat, hlt⟩ : Fin 16) = p := fun _ => Fin.ext (Int.toNat_natCast _)
  have hofInt : UInt32.ofInt (p.val : ℤ) = UInt32.ofNat p := ofInt_slot p
  obtain ⟨c, hc⟩ := strcmp_shell (s.process_list p)
  unfold syscall_kill
  simp only [hindex, hfin, hofInt, hc]
  rw [dif_pos (by omega)]
  by_cases h0 : c = 0
  · exact .inl ⟨by rw [Spared, hc, h0], by simp only [h0, ne_eq, not_true_eq_false, if_false]⟩
  · refine .inr ⟨fun hr => h0 (Option.some.inj (hc.symm.trans hr)), ?_⟩
    simp only [h0, ne_eq, not_false_eq_true, if_true]

theorem process_destroy_dead (hdead : s.list_of_process p = false) :
    process_destroy L s (UInt32.ofNat p) = .ok (false, s) := by
  have hp : (UInt32.ofNat p).toNat = p := UInt32.toNat_ofNat_of_lt' (by have := p.isLt; lia)
  have hlt : (UInt32.ofNat p.val).toNat < 16 := by rw [hp]; exact p.isLt
  have hfin : (⟨(UInt32.ofNat p.val).toNat, hlt⟩ : Fin 16) = p := Fin.ext hp
  rw [process_destroy, dif_pos hlt, hfin, hdead]
  rfl

/-- A number that is no slot is out of the list. -/
theorem syscall_kill_error (h : ∀ p, ¬ Reads arg p) (L : Linkage) (s : Kernel) :
    syscall_kill L s arg = .error .outOfBounds := by
  unfold syscall_kill
  rw [dif_neg]
  rintro ⟨h0, h16⟩
  exact h ⟨(piddd arg).toInt8.toInt.toNat, by omega⟩ (piddd_eq_iff.mp (Int.toNat_of_nonneg h0).symm)

/-- **When `kill` does as it should**: the first two characters stand for a slot, and the argument is the
number of that slot, or no live process is in it, or the name there passes for `"shell"`. -/
theorem kill_sound_iff (L : Linkage) (es : List Event) (s : Kernel) (h : Run (KStep L) (.initial L) es s)
    (arg : Buffer) : (∃ text s', syscall_kill L s arg = .ok (text, s') ∧ KillsSoundly L s arg s') ↔
      ∃ p, Reads arg p ∧ (IsString arg (numeral p) ∨ s.list_of_process p = false ∨ Spared s p) := by
  have hs := kinv_of_run h
  by_cases hp : ∃ p, Reads arg p
  swap
  · rw [syscall_kill_error (fun p hr => hp ⟨p, hr⟩)]
    refine iff_of_false ?_ fun ⟨p, hr, _⟩ => hp ⟨p, hr⟩
    rintro ⟨text, s', he, -⟩
    exact absurd he (by simp)
  obtain ⟨p, hr⟩ := hp
  have hright : (∃ q, Reads arg q ∧ (IsString arg (numeral q) ∨ s.list_of_process q = false ∨ Spared s q)) ↔
      IsString arg (numeral p) ∨ s.list_of_process p = false ∨ Spared s p :=
    ⟨fun ⟨q, hq, hcond⟩ => hr.unique hq ▸ hcond, fun hcond => ⟨p, hr, hcond⟩⟩
  rw [hright]
  rcases syscall_kill_eq hr L s with ⟨hspared, hcall⟩ | ⟨hspared, hcall⟩
  · exact iff_of_true ⟨_, s, hcall, .inl rfl⟩ (.inr (.inr hspared))
  · by_cases hlive : s.list_of_process p = true
    · obtain ⟨s', i, hdestroy, hd⟩ := destroy_returns L hlive (hs.pid_of_live hlive)
      rw [hdestroy] at hcall
      constructor
      · rintro ⟨text, t, ht, hsound⟩
        obtain ⟨-, rfl⟩ := Prod.mk.inj (Except.ok.inj (hcall.symm.trans ht))
        rcases hsound with rfl | ⟨q, hq, -⟩
        · have hdead := hd.dead
          rw [hlive] at hdead
          exact absurd hdead (by simp)
        · obtain rfl := hr.unique (reads_of_numeral hq)
          exact .inl hq
      · rintro (hnum | hdead | hsp)
        · exact ⟨_, s', hcall, .inr ⟨p, hnum, hlive, fun hn => hspared (strcmp_of_namedShell hn), hdestroy⟩⟩
        · rw [hlive] at hdead
          exact absurd hdead (by simp)
        · exact absurd hsp hspared
    · rw [Bool.not_eq_true] at hlive
      rw [process_destroy_dead hlive] at hcall
      exact iff_of_true ⟨_, s, hcall, .inl rfl⟩ (.inr (.inl hlive))

end

/-- A second process, of another program. -/
def clockRequest : ProcessRequest := { shellRequest with name := ![0x63, 0x6C, 0x6F, 0x63, 0x6B, 0, 0, 0] }

/-- The shell and the clock, and `"1"`. -/
theorem kill_sound_clock : ∃ es s, Run (KStep someLinkage) (.initial someLinkage) es s ∧
    s.list_of_process 1 = true ∧ ∃ text s', syscall_kill someLinkage s (cstring [49, 0]) = .ok (text, s') ∧
      KillsSoundly someLinkage s (cstring [49, 0]) s' := by
  obtain ⟨es, s, _, hrun, hq⟩ := exists_run (perform someLinkage) perform_step (fun _ _ _ => id)
    (.initial someLinkage, ()) [.create shellRequest, .create clockRequest]
    (fun _ s _ => s.list_of_process 1) (by decide +kernel)
  refine ⟨es, s, hrun.unrecorded, hq, (kill_sound_iff someLinkage es s hrun.unrecorded _).mpr
    ⟨1, by decide, .inl ⟨fun k hk => ?_, by decide, rfl⟩⟩⟩
  obtain rfl : k = 0 := Nat.lt_one_iff.mp hk
  rfl

/-- The shell and the clock: `"99"` is out of the list, and `"/;"` destroys the clock. -/
theorem kill_unsound : ∃ es s s' text, Run (KStep someLinkage) (.initial someLinkage) es s ∧
    syscall_kill someLinkage s (cstring [57, 57, 0]) = .error .outOfBounds ∧
    syscall_kill someLinkage s (cstring [47, 59, 0]) = .ok (text, s') ∧
    s.list_of_process 1 = true ∧ s'.list_of_process 1 = false := by
  obtain ⟨es, s, _, hrun, hq⟩ := exists_run (perform someLinkage) perform_step (fun _ _ _ => id)
    (.initial someLinkage, ()) [.create shellRequest, .create clockRequest]
    (fun _ s _ =>
      match syscall_kill someLinkage s (cstring [47, 59, 0]) with
      | .ok (_, s') => decide (s.list_of_process 1 = true ∧ s'.list_of_process 1 = false)
      | .error _ => false) (by decide +kernel)
  split at hq
  · rename_i text s' hkill
    obtain ⟨hlive, hgone⟩ := of_decide_eq_true hq
    exact ⟨es, s, s', text, hrun.unrecorded, syscall_kill_error (by decide) _ _, hkill, hlive, hgone⟩
  · exact absurd hq (by simp)

end KeropOS
