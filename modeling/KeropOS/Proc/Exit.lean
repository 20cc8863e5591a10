import KeropOS.Proc.Table

/-!
# The end of a program

`_start` of `crt0.s` calls `main`, moves what it returns to `ebx`, and makes system call 14, which takes
`ebx` as the number of the process to destroy. The byte at `ecx` that gets the result is memory of the
program and not modelled.

* `start_exit`, `syscall_process_destroy`, `exit_sequence`;
* `EndsCaller`: what the end of a program is to do; **`destroyed_endsCaller`**: destroying the caller does it;
* **`exit_ends_caller_iff`**: for which values that `main` returns.
-/

namespace KeropOS

open PROCESS_STATE Transition

/-- The registers at `int 0x30`, from those that `main` returns with. -/
def start_exit (cpu : CPURegister) : CPURegister := { cpu with ebx := cpu.eax, eax := 14 }

/-- Case 14 of `syscall`. -/
def syscall_process_destroy (L : Linkage) (s : Kernel) (cpu : CPURegister) : Except Trap (Bool × Kernel) :=
  process_destroy L s cpu.ebx

/-- What comes after `main`. -/
def exit_sequence (L : Linkage) (s : Kernel) (cpu : CPURegister) : Except Trap (Bool × Kernel) :=
  syscall_process_destroy L s (start_exit cpu)

/-- Slot `p` is not live, and every other live process stays as it is. -/
structure EndsCaller (s s' : Kernel) (p : Fin 16) : Prop where
  ended : s'.list_of_process p = false
  others : ∀ j, j ≠ p → s.list_of_process j = true →
    s'.list_of_process j = true ∧ s'.process_list j = s.process_list j

variable {L : Linkage} {s s' : Kernel} {p q i : Fin 16}

/-- **Destroying the caller ends it**: the control block found is its own, or one that was never used. -/
theorem destroyed_endsCaller (h : Destroyed L s s' p i) (hs : KInv L s) : EndsCaller s s' p where
  ended := h.dead
  others j hj hlive := by
    refine ⟨by rw [h.list, Function.update_of_ne hj, hlive], ?_⟩
    have hji : j ≠ i := by
      rintro rfl
      rcases h.found_cases hs with he | ⟨-, hnever⟩
      · exact hj he
      · rw [hnever.dead] at hlive
        exact absurd hlive (by simp)
    rw [h.pcbs, Function.update_of_ne hji]

/-- A state that did not change. -/
theorem endsCaller_self : EndsCaller s s p ↔ s.list_of_process p = false :=
  ⟨fun h => h.ended, fun h => ⟨h, fun _ _ hlive => ⟨hlive, rfl⟩⟩⟩

/-- Destroying another process does not end the caller alone. -/
theorem Destroyed.not_endsCaller (h : Destroyed L s s' q i) (hq : q ≠ p) : ¬ EndsCaller s s' p := by
  intro hends
  have := (hends.others q hq h.live).1
  rw [h.dead] at this
  exact absurd this (by simp)

/-- **When the end of a program ends its process and no other**: `main` returns the number of its process, or
the process is not live any more and `main` returns the number of none that is. -/
theorem exit_ends_caller_iff (L : Linkage) (es : List Event) (s : Kernel)
    (h : Run (KStep L) (.initial L) es s)
    (p : Fin 16) (cpu : CPURegister) : ∃ result s', exit_sequence L s cpu = .ok (result, s') ∧
      (EndsCaller s s' p ↔ cpu.eax = UInt32.ofNat p ∨
        s.list_of_process p = false ∧ ∀ q, s.list_of_process q = true → cpu.eax ≠ UInt32.ofNat q) := by
  have hs := kinv_of_run h
  obtain ⟨⟨result, s'⟩, hdestroy⟩ := destroy_always_returns hs cpu.eax
  refine ⟨result, s', hdestroy, ?_⟩
  rcases destroy_cases hdestroy with ⟨rfl, rfl⟩ | ⟨-, q, i, hq, hd⟩
  · -- the value is the number of no live process
    have hnone : ∀ q, s'.list_of_process q = true → cpu.eax ≠ UInt32.ofNat q := by
      rintro q hlive he
      obtain ⟨t, i, ht, -⟩ := destroy_returns L hlive (hs.pid_of_live hlive)
      rw [← he, hdestroy] at ht
      exact absurd (Prod.mk.inj (Except.ok.inj ht)).1 (by simp)
    rw [endsCaller_self]
    constructor
    · intro hdead
      exact .inr ⟨hdead, hnone⟩
    · rintro (he | ⟨hdead, -⟩)
      · by_contra hlive
        exact hnone p (by simpa using hlive) he
      · exact hdead
  · by_cases hqp : q = p
    · subst hqp
      exact iff_of_true (destroyed_endsCaller hd hs) (.inl hq)
    · refine iff_of_false (hd.not_endsCaller hqp) ?_
      rintro (he | ⟨-, hnone⟩)
      · exact hqp (ofNat_injective q p (hq.symm.trans he))
      · exact hnone q hd.live hq

/-- The registers of a program whose `main` returns `r`. -/
def returned (r : UInt32) : CPURegister := ⟨0, 0, 0xBFFFFFF8, 0xBFFFFFF8, 0, 0, 0, r, 0x23, 0x23, 0x23, 0x23⟩

/-- Process 1 runs, and its `main` returns 1. -/
theorem exit_ends_second : ∃ es s result s', Run (KStep someLinkage) (.initial someLinkage) es s ∧
    (s.process_list 1).state = RUNNING ∧ exit_sequence someLinkage s (returned 1) = .ok (result, s') ∧
    EndsCaller s s' 1 := by
  obtain ⟨es, s, _, hrun, hq⟩ := exists_run (perform someLinkage) perform_step (fun _ _ _ => id)
    (.initial someLinkage, ()) [.create shellRequest, .create shellRequest, .tick (userCpu 0)]
    (fun _ s _ => decide ((s.process_list 1).state = RUNNING)) (by decide +kernel)
  obtain ⟨result, s', he, hiff⟩ := exit_ends_caller_iff someLinkage es s hrun.unrecorded 1 (returned 1)
  exact ⟨es, s, result, s', hrun.unrecorded, of_decide_eq_true hq, he, hiff.mpr (.inl rfl)⟩

/-- Process 1 runs, and its `main` returns 0: the shell is destroyed, and process 1 stays live. -/
theorem exit_ends_shell : ∃ es s s', Run (KStep someLinkage) (.initial someLinkage) es s ∧
    s.list_of_process 1 = true ∧ (s.process_list 1).state = RUNNING ∧
    exit_sequence someLinkage s (returned 0) = .ok (true, s') ∧ s'.list_of_process 1 = true ∧
    s.list_of_process 0 = true ∧ s'.list_of_process 0 = false := by
  obtain ⟨es, s, _, hrun, hq⟩ := exists_run (perform someLinkage) perform_step (fun _ _ _ => id)
    (.initial someLinkage, ()) [.create shellRequest, .create shellRequest, .tick (userCpu 0)]
    (fun _ s _ =>
      match exit_sequence someLinkage s (returned 0) with
      | .ok (result, s') => decide (s.list_of_process 1 = true ∧ (s.process_list 1).state = RUNNING ∧
          result = true ∧ s'.list_of_process 1 = true ∧ s.list_of_process 0 = true ∧
          s'.list_of_process 0 = false)
      | .error _ => false) (by decide +kernel)
  split at hq
  · rename_i result s' hexit
    obtain ⟨hlive, hstate, rfl, hstill, hshell, hgone⟩ := of_decide_eq_true hq
    exact ⟨es, s, s', hrun.unrecorded, hlive, hstate, hexit, hstill, hshell, hgone⟩
  · exact absurd hq (by simp)

end KeropOS
